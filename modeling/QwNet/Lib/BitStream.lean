/-
  QwNet.Lib.BitStream

  Bit streams kept in byte memory, least significant bit first.

  `Holds mem base bits` says that the memory from byte `base` on starts with the
  bit list `bits`; `Padded` adds that the unused bits of the byte in which the
  stream ends are clear, which is what a writer that ORs into its last byte
  needs.  `Padded.append` is the one step of such a writer: OR some bits into the
  last byte, then clear the byte after it.
-/
import Mathlib.Logic.Function.Basic
import Mathlib.Data.List.Basic

namespace BitStream

/-- Bit `i` of the stream that starts at byte `base`. -/
def bitAt (mem : Nat → BitVec 8) (base i : Nat) : Bool :=
  (mem (base + i / 8)).getLsbD (i % 8)

/-- The memory from `base` on starts with `bits`. -/
def Holds (mem : Nat → BitVec 8) (base : Nat) (bits : List Bool) : Prop :=
  ∀ i (h : i < bits.length), bitAt mem base i = bits[i]

/-- `Holds`, and the rest of the byte in which the stream ends is clear. -/
structure Padded (mem : Nat → BitVec 8) (base : Nat) (bits : List Bool) : Prop where
  holds : Holds mem base bits
  pad : ∀ i, bits.length ≤ i → i < 8 * (bits.length / 8 + 1) → bitAt mem base i = false

/-- A writer between two symbols: its last byte is padded as soon as it has begun it. -/
structure Between (mem : Nat → BitVec 8) (base : Nat) (bits : List Bool) : Prop where
  holds : Holds mem base bits
  pad : bits.length % 8 ≠ 0 → Padded mem base bits

theorem Padded.between {mem : Nat → BitVec 8} {base : Nat} {bits : List Bool}
    (h : Padded mem base bits) : Between mem base bits :=
  ⟨h.holds, fun _ => h⟩

theorem Between.nil (mem : Nat → BitVec 8) (base : Nat) : Between mem base [] :=
  ⟨fun i h => absurd h (Nat.not_lt_zero i), fun h => absurd rfl h⟩

/-- A stream is only affected by the bytes it occupies. -/
theorem Holds.congr {mem mem' : Nat → BitVec 8} {base : Nat} {bits : List Bool}
    (h : Holds mem base bits)
    (heq : ∀ i, i < bits.length → mem' (base + i / 8) = mem (base + i / 8)) :
    Holds mem' base bits := by
  intro i hi
  rw [← h i hi, bitAt, heq i hi, bitAt]

theorem bitAt_update_of_ne {mem : Nat → BitVec 8} {base i o : Nat} {v : BitVec 8}
    (h : base + i / 8 ≠ o) : bitAt (Function.update mem o v) base i = bitAt mem base i := by
  rw [bitAt, Function.update_of_ne h, bitAt]

theorem bitAt_update_self {mem : Nat → BitVec 8} {base i o : Nat} {v : BitVec 8}
    (h : base + i / 8 = o) : bitAt (Function.update mem o v) base i = v.getLsbD (i % 8) := by
  subst h
  rw [bitAt, Function.update_self]

/-- Clearing the byte a writer is about to begin pads it. -/
theorem Between.clear {mem : Nat → BitVec 8} {base : Nat} {bits : List Bool}
    (h : Between mem base bits) (h0 : bits.length % 8 = 0) :
    Padded (Function.update mem (base + bits.length / 8) 0) base bits where
  holds := h.holds.congr fun i hi => Function.update_of_ne (by omega) _ _
  pad i hlo hhi := by
    rw [bitAt_update_self (by omega)]
    simp

/-- One step of the writer: OR `v`, whose bits from position `bits.length % 8` on are
    `new`, into the last byte and clear the byte after it. -/
theorem Padded.append {mem : Nat → BitVec 8} {base o : Nat} {bits new : List Bool}
    {v : BitVec 8} (h : Padded mem base bits) (ho : o = base + bits.length / 8)
    (hfit : new.length ≤ 8 - bits.length % 8)
    (hv : ∀ j, j < 8 → v.getLsbD j
      = (decide (bits.length % 8 ≤ j) && new.getD (j - bits.length % 8) false)) :
    Padded (Function.update (Function.update mem o (mem o ||| v)) (o + 1) 0) base
      (bits ++ new) := by
  subst ho
  have hlen : (bits ++ new).length = bits.length + new.length := List.length_append
  -- every bit of the last byte: the old one below the end of `bits`, then `new`, then clear
  have hlast : ∀ i, i / 8 = bits.length / 8 →
      bitAt (Function.update (Function.update mem (base + bits.length / 8)
        (mem (base + bits.length / 8) ||| v)) (base + bits.length / 8 + 1) 0) base i
      = (bitAt mem base i
          || (decide (bits.length ≤ i) && new.getD (i - bits.length) false)) := by
    intro i hi
    rw [bitAt_update_of_ne (by omega), bitAt_update_self (by omega), BitVec.getLsbD_or,
      hv (i % 8) (by omega), bitAt, hi]
    have hle : (bits.length % 8 ≤ i % 8) = (bits.length ≤ i) := by
      apply propext; omega
    have hsub : i % 8 - bits.length % 8 = i - bits.length := by omega
    simp only [hle, hsub]
  constructor
  · intro i hi
    by_cases hlt : i < bits.length
    · rw [List.getElem_append_left hlt, ← h.holds i hlt]
      by_cases hb : i / 8 = bits.length / 8
      · rw [hlast i hb]
        simp [Nat.not_le.mpr hlt]
      · rw [bitAt_update_of_ne (by omega), bitAt_update_of_ne (by omega)]
    · have hb : i / 8 = bits.length / 8 := by omega
      rw [hlast i hb, h.pad i (by omega) (by omega), List.getElem_append_right (by omega)]
      have hi' : i - bits.length < new.length := by omega
      simp only [Bool.false_or, List.getD_eq_getElem?_getD, List.getElem?_eq_getElem hi',
        Option.getD_some, Nat.not_lt.mp hlt, decide_true, Bool.true_and]
  · intro i hlo hhi
    by_cases hb : i / 8 = bits.length / 8
    · rw [hlast i hb, h.pad i (by omega) (by omega)]
      have hi' : new.length ≤ i - bits.length := by omega
      simp [List.getElem?_eq_none hi']
    · rw [bitAt_update_self (by omega)]
      simp

end BitStream
