/-
  QwNet.Lib.LagQueue

  A queue behind a freshness check.

  Items have keys, and an item is fresh if its key is above that of the last item
  handled.  A fresh item is accepted, and handled at once or put at the end of a queue.
  The check does not see the queue: items are handled in the order of their keys only
  as long as no item is accepted that the queue should have kept out (`Step`).
-/
import Mathlib.Data.List.Basic

/-- The key of the last item handled, the queue, and the history. -/
structure LagQueue (α : Type) where
  last : Nat
  waiting : List α
  accepted : List α
  handled : List α

namespace LagQueue

variable {α : Type} {key : α → Nat} {s s' : LagQueue α}

/-- An item is handled. -/
def handle (key : α → Nat) (x : α) (s : LagQueue α) : LagQueue α :=
  { s with last := key x, handled := s.handled ++ [x] }

/-- An item is accepted. -/
def accept (x : α) (s : LagQueue α) : LagQueue α := { s with accepted := s.accepted ++ [x] }

/-- An item is put at the end of the queue. -/
def enqueue (x : α) (s : LagQueue α) : LagQueue α := { s with waiting := s.waiting ++ [x] }

/-- The steps that keep the order: an item is handled at once only when none waits, and one
    that is to wait is newer than those that do. -/
inductive Step (key : α → Nat) : LagQueue α → LagQueue α → Prop where
  | now {s : LagQueue α} (x : α) (hfresh : s.last < key x) (hempty : s.waiting = []) :
      Step key s ((s.handle key x).accept x)
  | later {s : LagQueue α} (x : α) (hfresh : s.last < key x)
      (habove : ∀ y ∈ s.waiting, key y < key x) : Step key s ((s.enqueue x).accept x)
  | handle {s : LagQueue α} (x : α) (rest : List α) (hfirst : s.waiting = x :: rest) :
      Step key s { s.handle key x with waiting := rest }

/-- Everything accepted was handled or waits, in this order, and the keys increase. -/
structure Ordered (key : α → Nat) (s : LagQueue α) : Prop where
  accepted : s.accepted = s.handled ++ s.waiting
  increasing : (s.accepted.map key).Pairwise (· < ·)
  handled_le : ∀ x ∈ s.handled, key x ≤ s.last
  lt_waiting : ∀ x ∈ s.waiting, s.last < key x

namespace Ordered

/-- The keys of what was handled increase, too. -/
theorem handled_increasing (h : Ordered key s) : (s.handled.map key).Pairwise (· < ·) := by
  have hincreasing := h.increasing
  rw [h.accepted, List.map_append] at hincreasing
  exact (List.pairwise_append.mp hincreasing).1

/-- A new item is above everything accepted. -/
theorem concat (h : Ordered key s) {x : α} (hfresh : s.last < key x)
    (habove : ∀ y ∈ s.waiting, key y < key x) :
    ((s.accepted ++ [x]).map key).Pairwise (· < ·) := by
  rw [List.map_append]
  refine List.pairwise_append.mpr ⟨h.increasing, List.pairwise_singleton _ _, ?_⟩
  intro k hk k' hk'
  obtain ⟨y, hy, rfl⟩ := List.mem_map.mp hk
  obtain rfl := List.mem_singleton.mp hk'
  rw [h.accepted] at hy
  rcases List.mem_append.mp hy with hy | hy
  · exact Nat.lt_of_le_of_lt (h.handled_le y hy) hfresh
  · exact habove y hy

theorem step (h : Ordered key s) (hstep : Step key s s') : Ordered key s' := by
  cases hstep with
  | now x hfresh hempty =>
    have haccepted := h.accepted
    rw [hempty, List.append_nil] at haccepted
    refine ⟨?_, h.concat hfresh (by rw [hempty]; exact fun y hy => nomatch hy), ?_, ?_⟩
    · show s.accepted ++ [x] = s.handled ++ [x] ++ s.waiting
      rw [haccepted, hempty, List.append_nil]
    · intro y hy
      rcases List.mem_append.mp hy with hy | hy
      · exact Nat.le_of_lt (Nat.lt_of_le_of_lt (h.handled_le y hy) hfresh)
      · rw [List.mem_singleton.mp hy]
        exact Nat.le_refl _
    · intro y hy
      exact nomatch (hempty ▸ hy : y ∈ ([] : List α))
  | later x hfresh habove =>
    refine ⟨?_, h.concat hfresh habove, h.handled_le, ?_⟩
    · show s.accepted ++ [x] = s.handled ++ (s.waiting ++ [x])
      rw [h.accepted, List.append_assoc]
    · intro y hy
      rcases List.mem_append.mp hy with hy | hy
      · exact h.lt_waiting y hy
      · rw [List.mem_singleton.mp hy]
        exact hfresh
  | handle x rest hfirst =>
    have hx : x ∈ s.waiting := hfirst ▸ List.mem_cons_self
    have hincreasing := h.increasing
    rw [h.accepted, hfirst, List.map_append, List.map_cons] at hincreasing
    have hrest := (List.pairwise_cons.mp (List.pairwise_append.mp hincreasing).2.1).1
    refine ⟨?_, h.increasing, ?_, ?_⟩
    · show s.accepted = s.handled ++ [x] ++ rest
      rw [h.accepted, hfirst, List.append_assoc]
      rfl
    · intro y hy
      rcases List.mem_append.mp hy with hy | hy
      · exact Nat.le_of_lt (Nat.lt_of_le_of_lt (h.handled_le y hy) (h.lt_waiting x hx))
      · rw [List.mem_singleton.mp hy]
        exact Nat.le_refl _
    · intro y hy
      exact hrest (key y) (List.mem_map_of_mem hy)

/-- The last key never decreases. -/
theorem last_le (h : Ordered key s) (hstep : Step key s s') : s.last ≤ s'.last := by
  cases hstep with
  | now x hfresh hempty => exact Nat.le_of_lt hfresh
  | later x hfresh habove => exact Nat.le_refl _
  | handle x rest hfirst => exact Nat.le_of_lt (h.lt_waiting x (hfirst ▸ List.mem_cons_self))

end Ordered

/-! ## Every item -/

/-- `P` holds of every item that was handled or waits. -/
structure Items (P : α → Prop) (s : LagQueue α) : Prop where
  waiting : ∀ x ∈ s.waiting, P x
  handled : ∀ x ∈ s.handled, P x

namespace Items

variable {P : α → Prop} {x : α}

theorem handle (h : Items P s) (hx : P x) : Items P (s.handle key x) :=
  ⟨h.waiting, List.forall_mem_append.mpr ⟨h.handled, List.forall_mem_singleton.mpr hx⟩⟩

theorem enqueue (h : Items P s) (hx : P x) : Items P (s.enqueue x) :=
  ⟨List.forall_mem_append.mpr ⟨h.waiting, List.forall_mem_singleton.mpr hx⟩, h.handled⟩

theorem accept (h : Items P s) : Items P (s.accept x) := ⟨h.waiting, h.handled⟩

/-- The first item that waits is handled. -/
theorem next (h : Items P s) {rest : List α} (hfirst : s.waiting = x :: rest) :
    Items P ({ s.handle key x with waiting := rest } : LagQueue α) := by
  obtain ⟨hx, hrest⟩ := List.forall_mem_cons.mp (hfirst ▸ h.waiting)
  have hhandle : Items P (s.handle key x) := h.handle hx
  exact ⟨hrest, hhandle.handled⟩

end Items

end LagQueue
