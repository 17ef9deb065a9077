/-
  QwNet.Lib.Runs

  Runs of neighbouring positions that satisfy a predicate, and the first longest of
  them.

  A scan from left to right that keeps a run unless it finds a longer one ends with
  the first longest run.  `FirstLongest.ends_iff` says when that one is the last.
-/
import Mathlib.Data.Nat.Basic

namespace Runs

variable {P : Nat → Prop} {N K i n : Nat}

/-- The `n` positions from `i` on satisfy the predicate, and are all below `N`. -/
structure Run (P : Nat → Prop) (N i n : Nat) : Prop where
  holds : ∀ k < n, P (i + k)
  inside : i + n ≤ N

/-- The longest run from `i` on. -/
structure Longest (P : Nat → Prop) (N i n : Nat) : Prop extends Run P N i n where
  longest : ∀ m, Run P N i m → m ≤ n

/-- Of the runs that begin below `K` none is longer, and none that begins earlier is as long. -/
structure FirstLongest (P : Nat → Prop) (N K i n : Nat) : Prop extends Run P N i n where
  pos : 0 < n
  below : i < K
  longest : ∀ j m, j < K → Run P N j m → m ≤ n
  first : ∀ j m, j < i → Run P N j m → m < n

/-- A run gets longer by one position. -/
theorem Run.extend (h : Run P N i n) (hnext : P (i + n)) (hinside : i + n < N) :
    Run P N i (n + 1) := by
  refine ⟨fun k hk => ?_, by omega⟩
  rcases Nat.lt_succ_iff_lt_or_eq.mp hk with hk | rfl
  · exact h.holds k hk
  · exact hnext

theorem Run.shorter (h : Run P N i n) {m : Nat} (hm : m ≤ n) : Run P N i m := by
  have hinside := h.inside
  exact ⟨fun k hk => h.holds k (by omega), by omega⟩

/-- A run that is stopped is the longest one from there. -/
theorem Run.longest_of_stop (h : Run P N i n) (hstop : i + n = N ∨ ¬P (i + n)) :
    Longest P N i n := by
  refine ⟨h, fun m hm => ?_⟩
  by_contra hlt
  rcases hstop with hend | hnot
  · have hinside := hm.inside
    omega
  · exact hnot (hm.holds n (Nat.not_le.mp hlt))

/-- A run that is not longer is passed over. -/
theorem FirstLongest.skip (h : FirstLongest P N K i n) (hskip : ∀ m, Run P N K m → m ≤ n) :
    FirstLongest P N (K + 1) i n := by
  refine ⟨h.toRun, h.pos, Nat.lt_succ_of_lt h.below, fun j m hj hm => ?_, h.first⟩
  rcases Nat.lt_succ_iff_lt_or_eq.mp hj with hj | rfl
  · exact h.longest j m hj hm
  · exact hskip m hm

/-- A run that is longer than all before it is taken. -/
theorem Longest.take (h : Longest P N K n) (hpos : 0 < n)
    (hlonger : ∀ j m, j < K → Run P N j m → m < n) : FirstLongest P N (K + 1) K n := by
  refine ⟨h.toRun, hpos, Nat.lt_succ_self K, fun j m hj hm => ?_, hlonger⟩
  rcases Nat.lt_succ_iff_lt_or_eq.mp hj with hj | rfl
  · exact Nat.le_of_lt (hlonger j m hj hm)
  · exact h.longest m hm

/-- Wherever the last positions satisfy the predicate, as long a run ends earlier. -/
def EndsEarlier (P : Nat → Prop) (N : Nat) : Prop :=
  ∀ m, 0 < m → m ≤ N → Run P N (N - m) m → ∃ j, j + m < N ∧ Run P N j m

/-- The first longest run reaches the end unless as long a run ends earlier. -/
theorem FirstLongest.ends_iff (h : FirstLongest P N N i n) :
    i + n < N ↔ EndsEarlier P N := by
  have hinside := h.inside
  constructor
  · intro hearlier m _ hm hrun
    have hle : m ≤ n := h.longest (N - m) m (by omega) hrun
    exact ⟨i, by omega, h.toRun.shorter hle⟩
  · intro hends
    by_contra hlast
    have hi : i = N - n := by omega
    obtain ⟨j, hj, hrun⟩ := hends n h.pos (by omega) (hi ▸ h.toRun)
    -- the earlier run begins before the first longest one
    exact absurd (h.first j n (by omega) hrun) (Nat.lt_irrefl n)

/-- Without a run nothing ends anywhere. -/
theorem endsEarlier_of_none (h : ∀ k < N, ¬P k) : EndsEarlier P N := by
  intro m hpos hm hrun
  exact absurd (hrun.holds 0 hpos) (h _ (by omega))

end Runs
