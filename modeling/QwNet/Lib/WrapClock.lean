/-
  QwNet.Lib.WrapClock

  A clock that goes forward in equal steps and wraps around.

  From `start` it moves by `d` and is read modulo `N`.  It takes exactly the readings that
  agree with `start` modulo the greatest common divisor of `d` and `N`; so it gets past
  a time `t` if there is such a reading between `t` and `N`, and only then.
-/
import Mathlib.Data.Int.GCD
import Mathlib.Data.Int.ModEq
import Mathlib.Data.Nat.ModEq
import Mathlib.Tactic.Ring

namespace WrapClock

/-- What the clock shows after `n` steps. -/
def reading (N d start n : Nat) : Nat := (start + n * d) % N

/-- A reading that the clock can take lies between the time `t` and `N`. -/
def Room (N d start t : Nat) : Prop := ∃ x, t < x ∧ x < N ∧ x ≡ start [MOD Nat.gcd d N]

section

variable {N d start t : Nat}

theorem reading_zero (hstart : start < N) : reading N d start 0 = start := by
  rw [reading, Nat.zero_mul, Nat.add_zero, Nat.mod_eq_of_lt hstart]

theorem reading_succ (n : Nat) : reading N d start (n + 1) = (reading N d start n + d) % N := by
  rw [reading, reading, Nat.succ_mul, ← Nat.add_assoc, Nat.mod_add_mod]

theorem reading_modEq (n : Nat) : reading N d start n ≡ start [MOD Nat.gcd d N] := by
  have hwrap : reading N d start n ≡ start + n * d [MOD Nat.gcd d N] :=
    (Nat.mod_modEq _ N).of_dvd (Nat.gcd_dvd_right d N)
  have hstep : start + n * d ≡ start + 0 [MOD Nat.gcd d N] := by
    apply Nat.ModEq.add_left
    apply Nat.modEq_zero_iff_dvd.mpr
    exact Dvd.dvd.mul_left (Nat.gcd_dvd_left d N) n
  exact hwrap.trans hstep

/-- The clock takes every reading that agrees with the start. -/
theorem exists_reading_eq {x : Nat} (hx : x < N) (hmod : x ≡ start [MOD Nat.gcd d N]) :
    ∃ n, reading N d start (n + 1) = x := by
  have hdvd : (Int.gcd d N : ℤ) ∣ (x : ℤ) - start := by
    have := Nat.modEq_iff_dvd.mp hmod.symm
    simpa using this
  obtain ⟨k, hk⟩ := hdvd
  have hgcd := Int.gcd_eq_gcd_ab d N
  have hpos : (0 : ℤ) < N := by omega
  obtain ⟨u, hu⟩ : ∃ u : ℤ, u = Int.gcdA d N * k := ⟨_, rfl⟩
  have hnonneg : 0 ≤ u % N := Int.emod_nonneg _ (by omega)
  -- as many steps as the Bézout coefficient says, and one round more so that there is one
  refine ⟨(u % N).toNat + N - 1, ?_⟩
  have hcast : (((u % N).toNat + N - 1 + 1 : Nat) : ℤ) = u % N + N := by omega
  have hcongr : ((start + ((u % N).toNat + N - 1 + 1) * d : Nat) : ℤ) ≡ x [ZMOD N] := by
    have hmod' : u % N = u - N * (u / N) := eq_sub_of_add_eq (Int.emod_add_mul_ediv u N)
    have hx' : (x : ℤ) = start + (d * Int.gcdA d N + N * Int.gcdB d N) * k := by
      rw [← hgcd, ← hk]
      ring
    rw [Nat.cast_add, Nat.cast_mul, hcast]
    refine Int.modEq_iff_dvd.mpr ⟨k * Int.gcdB d N + u / N * d - d, ?_⟩
    rw [hx', hmod', hu]
    ring
  have heq := Int.natCast_modEq_iff.mp hcongr
  rw [reading, heq]
  exact Nat.mod_eq_of_lt hx

/-- The clock gets past the time `t` exactly if there is room. -/
theorem exists_past_iff (hN : 0 < N) : (∃ n, t < reading N d start (n + 1)) ↔ Room N d start t := by
  constructor
  · rintro ⟨n, hn⟩
    exact ⟨_, hn, Nat.mod_lt _ hN, reading_modEq _⟩
  · rintro ⟨x, ht, hx, hmod⟩
    obtain ⟨n, rfl⟩ := exists_reading_eq hx hmod
    exact ⟨n, ht⟩

/-- There is room if a whole step fits behind the time. -/
theorem room_of_lt (hd : 0 < d) (hstart : start ≤ t) (ht : t + d < N) : Room N d start t := by
  have hmod := Nat.mod_lt (t - start) hd
  have hdiv := Nat.div_add_mod (t - start) d
  rw [Nat.mul_comm] at hdiv
  refine ⟨start + ((t - start) / d + 1) * d, ?_, ?_, ?_⟩
  · rw [Nat.succ_mul]
    omega
  · rw [Nat.succ_mul]
    omega
  · have hread : reading N d start ((t - start) / d + 1) ≡ start [MOD Nat.gcd d N] :=
      reading_modEq _
    rwa [reading, Nat.mod_eq_of_lt] at hread
    rw [Nat.succ_mul]
    omega

/-- The clock gets past a time only by a step that does not wrap. -/
theorem reading_succ_of_past {n : Nat} (hd : d ≤ N) (hle : reading N d start n ≤ t)
    (hpast : t < reading N d start (n + 1)) :
    reading N d start (n + 1) = reading N d start n + d := by
  rw [reading_succ] at hpast ⊢
  by_cases hwrap : reading N d start n + d < N
  · exact Nat.mod_eq_of_lt hwrap
  · rw [Nat.mod_eq_sub_mod (Nat.not_lt.mp hwrap)] at hpast
    have hmod := Nat.mod_le (reading N d start n + d - N) N
    omega

end

end WrapClock
