/-
  QwNet.Lib.Fitting

  Filling a container from a queue.

  The items have weights, and they are taken in order as long as the total stays below a
  limit.  What a greedy loop takes is the longest part of the queue that fits.
-/
import Mathlib.Algebra.Order.Ring.Nat
import Mathlib.Data.List.Basic

namespace Fitting

variable {α : Type} (weight : α → Nat)

/-- The weight of a list. -/
def total (xs : List α) : Nat := (xs.map weight).sum

@[simp] theorem total_nil : total weight [] = 0 := rfl

theorem total_cons (x : α) (xs : List α) : total weight (x :: xs) = weight x + total weight xs := by
  rw [total, List.map_cons, List.sum_cons]
  rfl

/-- Behind a first weight `i`, `taken` is the longest beginning of `queue` whose total stays
    below `limit`. -/
structure Longest (limit i : Nat) (queue taken : List α) : Prop where
  isPrefix : taken <+: queue
  fits : i + total weight taken < limit
  longest : ∀ more, more <+: queue → i + total weight more < limit → more <+: taken

variable {weight} {limit i : Nat} {x : α} {queue taken : List α}

theorem Longest.nil (hi : i < limit) : Longest weight limit i [] [] :=
  ⟨List.prefix_refl _, hi, fun _ hmore _ => hmore⟩

/-- The first item fits. -/
theorem Longest.cons (h : Longest weight limit (i + weight x) queue taken) :
    Longest weight limit i (x :: queue) (x :: taken) := by
  refine ⟨List.cons_prefix_cons.mpr ⟨rfl, h.isPrefix⟩, ?_, ?_⟩
  · have hfits := h.fits
    rw [total_cons]
    omega
  · intro more hmore hfits
    cases more with
    | nil => exact List.nil_prefix
    | cons y ys =>
      obtain ⟨rfl, hys⟩ := List.cons_prefix_cons.mp hmore
      rw [total_cons] at hfits
      exact List.cons_prefix_cons.mpr ⟨rfl, h.longest ys hys (by omega)⟩

/-- The first item does not fit, and nothing is taken. -/
theorem Longest.stop (hi : i < limit) (hx : limit ≤ i + weight x) :
    Longest weight limit i (x :: queue) [] := by
  refine ⟨List.nil_prefix, hi, ?_⟩
  intro more hmore hfits
  cases more with
  | nil => exact List.nil_prefix
  | cons y ys =>
    obtain ⟨rfl, -⟩ := List.cons_prefix_cons.mp hmore
    rw [total_cons] at hfits
    omega

end Fitting
