/-
  QwNet.Lib.History

  Histories that only grow, and rings that hold their last entries.

  `Indexed P xs` says `P k x` of every entry `x` of a history and its number `k`.  A
  ring keeps entry `k` at place `idx k`; as long as `n` consecutive entries have
  different places, the last `n` entries can be read back (`Holds`).
-/
import Mathlib.Logic.Function.Basic
import Mathlib.Data.List.Induction

namespace History

variable {α β ι : Type}

/-! ## Entries and their numbers -/

/-- `P k x` holds of every entry `x` and its number `k`. -/
def Indexed (P : Nat → α → Prop) (xs : List α) : Prop := ∀ k x, xs[k]? = some x → P k x

theorem indexed_nil (P : Nat → α → Prop) : Indexed P [] := fun _ _ h => nomatch h

theorem getElem?_concat {xs : List α} {x y : α} {k : Nat} (h : (xs ++ [x])[k]? = some y) :
    xs[k]? = some y ∨ k = xs.length ∧ y = x := by
  rcases Nat.lt_trichotomy k xs.length with hlt | heq | hgt
  · rw [List.getElem?_append_left hlt] at h
    exact .inl h
  · subst heq
    rw [List.getElem?_concat_length] at h
    exact .inr ⟨rfl, (Option.some.inj h).symm⟩
  · rw [List.getElem?_eq_none (by simp only [List.length_append, List.length_singleton]; omega)] at h
    exact nomatch h

theorem Indexed.concat {P : Nat → α → Prop} {xs : List α} {x : α} (h : Indexed P xs)
    (hx : P xs.length x) : Indexed P (xs ++ [x]) := by
  intro k y hy
  rcases getElem?_concat hy with hy | ⟨rfl, rfl⟩
  · exact h k y hy
  · exact hx

theorem lt_of_getElem? {xs : List α} {k : Nat} {x : α} (h : xs[k]? = some x) : k < xs.length :=
  (List.getElem?_eq_some_iff.mp h).1

theorem filterMap_singleton (f : α → Option β) (x : α) : [x].filterMap f = (f x).toList := by
  rw [List.filterMap_cons, List.filterMap_nil]
  cases f x <;> rfl

/-! ## What held when an entry was added -/

/-- `P pre x` holds of every entry `x` and the history `pre` before it. -/
def AtEvery (P : List α → α → Prop) (xs : List α) : Prop := ∀ pre x, pre ++ [x] <+: xs → P pre x

theorem atEvery_nil (P : List α → α → Prop) : AtEvery P [] := by
  intro pre x h
  exact absurd (List.prefix_nil.mp h) (by simp)

theorem AtEvery.concat {P : List α → α → Prop} {xs : List α} {x : α} (h : AtEvery P xs)
    (hx : P xs x) : AtEvery P (xs ++ [x]) := by
  intro pre y hy
  rcases List.prefix_concat_iff.mp hy with heq | hprefix
  · obtain ⟨rfl, hxy⟩ := List.append_inj' heq rfl
    obtain rfl := List.singleton_inj.mp hxy
    exact hx
  · exact h pre y hprefix

theorem AtEvery.initial {P : List α → α → Prop} {xs : List α} {x : α} (h : AtEvery P (xs ++ [x])) :
    AtEvery P xs := fun pre y hy => h pre y (hy.trans (List.prefix_append xs [x]))

/-- Two conditions are the same if they are after every history that meets the second. -/
theorem atEvery_congr {P Q : List α → α → Prop} {xs : List α}
    (h : ∀ pre x, AtEvery Q pre → (P pre x ↔ Q pre x)) : AtEvery P xs ↔ AtEvery Q xs := by
  induction xs using List.reverseRecOn with
  | nil => exact iff_of_true (atEvery_nil P) (atEvery_nil Q)
  | append_singleton xs x ih =>
    constructor
    · intro hP
      have hQ := ih.mp hP.initial
      exact hQ.concat ((h xs x hQ).mp (hP xs x (List.prefix_refl _)))
    · intro hQ
      exact (ih.mpr hQ.initial).concat ((h xs x hQ.initial).mpr (hQ xs x (List.prefix_refl _)))

theorem AtEvery.append {P : List α → α → Prop} {xs ys : List α} (h : AtEvery P xs)
    (hys : ∀ pre, ∀ y ∈ ys, P pre y) : AtEvery P (xs ++ ys) := by
  induction ys generalizing xs with
  | nil => rwa [List.append_nil]
  | cons y ys ih =>
    rw [List.append_cons]
    exact ih (h.concat (hys xs y List.mem_cons_self))
      fun pre y hy => hys pre y (List.mem_cons_of_mem _ hy)

/-! ## What happened since an entry was added -/

/-- `P x since` holds of every entry `x` and the history `since` after it. -/
def SinceEvery (P : α → List α → Prop) (xs : List α) : Prop :=
  ∀ before x since, xs = before ++ x :: since → P x since

theorem sinceEvery_nil (P : α → List α → Prop) : SinceEvery P [] := by
  intro before x since h
  exact absurd h.symm (List.append_ne_nil_of_right_ne_nil _ (List.cons_ne_nil _ _))

/-- Another entry, after which `P'` takes the place of `P`. -/
theorem SinceEvery.concat {P P' : α → List α → Prop} {xs : List α} {y : α} (h : SinceEvery P xs)
    (hgrow : ∀ x since, P x since → P' x (since ++ [y])) (hy : P' y []) :
    SinceEvery P' (xs ++ [y]) := by
  intro before x since heq
  rcases List.eq_nil_or_concat since with rfl | ⟨since', last, rfl⟩
  · obtain ⟨-, hlast⟩ := List.append_inj' heq rfl
    obtain rfl := (List.cons.inj hlast).1
    exact hy
  · rw [List.concat_eq_append] at heq ⊢
    have hsplit : xs ++ [y] = (before ++ x :: since') ++ [last] := by
      rw [heq, List.append_assoc]
      rfl
    obtain ⟨hinit, hlast⟩ := List.append_inj' hsplit rfl
    obtain rfl := (List.cons.inj hlast).1
    exact hgrow x since' (h before x since' hinit)

theorem SinceEvery.append {P : α → List α → Prop} {xs ys : List α} (h : SinceEvery P xs)
    (hgrow : ∀ x y since, P x since → P x (since ++ [y])) (hys : ∀ y ∈ ys, P y []) :
    SinceEvery P (xs ++ ys) := by
  induction ys generalizing xs with
  | nil => rwa [List.append_nil]
  | cons y ys ih =>
    rw [List.append_cons]
    exact ih (h.concat (fun x since => hgrow x y since) (hys y List.mem_cons_self))
      fun z hz => hys z (List.mem_cons_of_mem y hz)

/-! ## Rings -/

/-- `n` consecutive numbers have different places. -/
def Spread (idx : Nat → ι) (n : Nat) : Prop := ∀ j k, j < k → k < j + n → idx j ≠ idx k

/-- The last `n` entries of the history are in the ring. -/
def Holds (idx : Nat → ι) (n : Nat) (ring : ι → α) (xs : List α) : Prop :=
  Indexed (fun k x => xs.length ≤ k + n → ring (idx k) = x) xs

theorem holds_nil (idx : Nat → ι) (n : Nat) (ring : ι → α) : Holds idx n ring [] :=
  indexed_nil _

/-- Storing the next entry at its place overwrites the one `n` before it only. -/
theorem Holds.store [DecidableEq ι] {idx : Nat → ι} {n : Nat} {ring : ι → α} {xs : List α}
    (hspread : Spread idx n) (h : Holds idx n ring xs) (x : α) :
    Holds idx n (Function.update ring (idx xs.length) x) (xs ++ [x]) := by
  intro k y hy hn
  rw [List.length_append, List.length_singleton] at hn
  rcases getElem?_concat hy with hy | ⟨rfl, rfl⟩
  · have hlt := lt_of_getElem? hy
    rw [Function.update_of_ne (hspread k _ hlt (by omega))]
    exact h k y hy (by omega)
  · exact Function.update_self ..

end History
