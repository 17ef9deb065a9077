/-
  QwNet.Lib.OverrunRing

  A ring whose writer does not wait for its reader.

  There are `cap` slots and two counters of `w` bits that wrap around.  The writer puts
  an item into the slot of its counter and goes on to the next one, and the reader takes
  the item in the slot of its own.  What the reader has not taken in time is overwritten;
  a reader that finds itself more than `cap` items behind skips to the oldest item that
  is still there.

  The items sent and not taken form a queue (`Keeps`).  Writer and reader are then those
  of a queue of which only the newest `cap` items count.
-/
import Mathlib.Algebra.Order.Ring.Nat
import Mathlib.Data.List.Basic
import Mathlib.Logic.Function.Basic

namespace OverrunRing

variable {α : Type}

/-! ## The queue -/

/-- The newest `cap` items of a queue. -/
def newest (cap : Nat) (queue : List α) : List α := queue.drop (queue.length - cap)

/-- The reader takes the oldest of the newest `cap` items, and with it all older ones. -/
def take (cap : Nat) (queue : List α) : Option α × List α :=
  match newest cap queue with
  | [] => (none, [])
  | x :: rest => (some x, rest)

theorem newest_of_length_le {cap : Nat} {queue : List α} (h : queue.length ≤ cap) :
    newest cap queue = queue := by
  rw [newest, Nat.sub_eq_zero_of_le h, List.drop_zero]

theorem length_newest (cap : Nat) (queue : List α) :
    (newest cap queue).length = min cap queue.length := by
  rw [newest, List.length_drop]
  omega

theorem newest_sublist (cap : Nat) (queue : List α) : (newest cap queue).Sublist queue :=
  List.drop_sublist _ _

/-- Nothing is taken from an empty queue only. -/
theorem take_none_iff {cap : Nat} (hcap : 0 < cap) {queue : List α} :
    (take cap queue).1 = none ↔ queue = [] := by
  have hlength := length_newest cap queue
  unfold take
  cases hnewest : newest cap queue with
  | nil =>
    rw [hnewest, List.length_nil] at hlength
    exact iff_of_true rfl (List.length_eq_zero_iff.mp (by omega))
  | cons x rest =>
    rw [hnewest, List.length_cons] at hlength
    refine iff_of_false nofun fun hempty => ?_
    rw [hempty, List.length_nil] at hlength
    omega

/-- What is taken and what is left were in the queue, in this order. -/
theorem take_sublist (cap : Nat) (queue : List α) :
    ((take cap queue).1.toList ++ (take cap queue).2).Sublist queue := by
  have hsub := newest_sublist cap queue
  unfold take
  cases hnewest : newest cap queue with
  | nil => exact List.nil_sublist _
  | cons x rest =>
    rw [hnewest] at hsub
    exact hsub

/-! ## The ring -/

section

variable {w cap : Nat} {slots : Nat → α} {get send : BitVec w} {queue : List α}

/-- The queue is what was sent and not taken: the counters are as many items apart as it has, up
    to a wrap, and its newest `cap` items are in their slots. -/
structure Keeps (cap : Nat) (slots : Nat → α) (get send : BitVec w) (queue : List α) : Prop where
  send : send = get + BitVec.ofNat w queue.length
  slots : ∀ k (hk : k < queue.length), queue.length ≤ k + cap →
    slots ((get + BitVec.ofNat w k).toNat % cap) = queue[k]

/-- The slot that lies `k` behind a counter; it does not see the wrap. -/
theorem slot_add (hdvd : cap ∣ 2 ^ w) (n : BitVec w) (k : Nat) :
    (n + BitVec.ofNat w k).toNat % cap = (n.toNat + k) % cap := by
  rw [BitVec.toNat_add, BitVec.toNat_ofNat, Nat.mod_mod_of_dvd _ hdvd, Nat.add_mod,
    Nat.mod_mod_of_dvd _ hdvd, ← Nat.add_mod]

/-- Fewer than `cap` steps apart, slots are different. -/
theorem slot_ne (hdvd : cap ∣ 2 ^ w) (n : BitVec w) {j k : Nat} (hjk : j < k)
    (hcap : k < j + cap) :
    (n + BitVec.ofNat w j).toNat % cap ≠ (n + BitVec.ofNat w k).toNat % cap := by
  rw [slot_add hdvd, slot_add hdvd]
  intro heq
  have hmod : (n.toNat + k - (n.toNat + j)) % cap = 0 := Nat.sub_mod_eq_zero_of_mod_eq heq.symm
  rw [Nat.add_sub_add_left, Nat.mod_eq_of_lt (by omega)] at hmod
  omega

/-- Counters that agree keep the empty queue. -/
theorem Keeps.nil : Keeps cap slots get get ([] : List α) := by
  constructor
  · exact (BitVec.add_zero get).symm
  · exact fun k hk => absurd hk (Nat.not_lt_zero k)

/-- The distance of the counters. -/
theorem Keeps.sub_eq (h : Keeps cap slots get send queue) :
    send - get = BitVec.ofNat w queue.length := by
  rw [h.send, BitVec.add_comm, BitVec.add_sub_cancel]

theorem Keeps.toNat_sub (h : Keeps cap slots get send queue) (hfew : queue.length < 2 ^ w) :
    (send - get).toNat = queue.length := by
  rw [h.sub_eq, BitVec.toNat_ofNat, Nat.mod_eq_of_lt hfew]

/-- An item is sent; what it overwrites is too old to count. -/
theorem Keeps.push (h : Keeps cap slots get send queue) (hdvd : cap ∣ 2 ^ w) (x : α) :
    Keeps cap (Function.update slots (send.toNat % cap) x) get (send + 1#w) (queue ++ [x]) := by
  constructor
  · rw [List.length_append, List.length_singleton, BitVec.ofNat_add, ← BitVec.add_assoc, ← h.send]
  · intro k hk hcap
    rw [List.length_append, List.length_singleton] at hk hcap
    rw [h.send]
    rcases Nat.lt_succ_iff_lt_or_eq.mp hk with hk | rfl
    · rw [Function.update_of_ne (slot_ne hdvd get hk (by omega)), List.getElem_append_left hk]
      exact h.slots k hk (by omega)
    · rw [Function.update_self, List.getElem_append_right (Nat.le_refl _)]
      simp

/-- A reader that is too far behind skips what was overwritten. -/
theorem Keeps.skip (h : Keeps cap slots get send queue) (hfar : cap < queue.length) :
    Keeps cap slots (send - BitVec.ofNat w cap) send (newest cap queue) := by
  have hlength : (newest cap queue).length = cap := by
    rw [length_newest, Nat.min_eq_left (Nat.le_of_lt hfar)]
  have hget : send - BitVec.ofNat w cap = get + BitVec.ofNat w (queue.length - cap) := by
    rw [h.send]
    have hsplit : queue.length = queue.length - cap + cap := by omega
    conv_lhs => rw [hsplit, BitVec.ofNat_add, ← BitVec.add_assoc]
    exact BitVec.add_sub_cancel ..
  constructor
  · rw [hlength, BitVec.sub_add_cancel]
  · intro k hk hcap
    rw [hlength] at hk
    rw [hget, BitVec.add_assoc, ← BitVec.ofNat_add, h.slots _ (by omega) (by omega)]
    simp only [newest, List.getElem_drop]

/-- An item is taken. -/
theorem Keeps.pop {x : α} {rest : List α} (h : Keeps cap slots get send (x :: rest))
    (hfew : rest.length < cap) :
    slots (get.toNat % cap) = x ∧ Keeps cap slots (get + 1#w) send rest := by
  constructor
  · have hfirst := h.slots 0 (Nat.succ_pos _) (by rw [List.length_cons]; omega)
    rwa [BitVec.add_zero] at hfirst
  constructor
  · rw [h.send, List.length_cons, Nat.add_comm, BitVec.ofNat_add, ← BitVec.add_assoc]
  · intro k hk hcap
    have hmove : get + 1#w + BitVec.ofNat w k = get + BitVec.ofNat w (k + 1) := by
      rw [Nat.add_comm k, BitVec.ofNat_add, BitVec.add_assoc]
    rw [hmove]
    exact h.slots (k + 1) (Nat.succ_lt_succ hk) (by rw [List.length_cons]; omega)

end

end OverrunRing
