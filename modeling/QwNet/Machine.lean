/-
  QwNet.Machine

  Machine integers and byte buffers of the C code.

  `unsigned char`, `unsigned short`, `unsigned int` and `unsigned long long` are
  bit vectors where the code keeps them in memory.  Lengths and cursors that the
  code computes with are natural numbers, reduced modulo `2 ^ 32` where the C
  expression can wrap.
-/
import Mathlib.Logic.Function.Basic
import Mathlib.Algebra.Order.Ring.Nat
import Mathlib.Data.List.Basic

namespace QwNet

/-- `unsigned char`. -/
abbrev Byte := BitVec 8

/-- The ASCII bytes of a string literal. -/
def ascii (s : String) : List Byte := s.toList.map fun c => BitVec.ofNat 8 c.toNat

/-- `%i`. -/
def decimal (i : BitVec 32) : List Byte := ascii (toString i.toInt)

/-- `UPDATE_MASK`. -/
def updateMask : BitVec 32 := 63#32

/-- A flag is in a word also after both were widened to an `unsigned int`. -/
theorem setWidth_and_ne_zero {w : Nat} (hw : w ≤ 32) (bits flag : BitVec w) :
    bits.setWidth 32 &&& flag.setWidth 32 ≠ 0#32 ↔ bits &&& flag ≠ 0#w := by
  rw [← BitVec.setWidth_and, ne_eq, ne_eq, not_iff_not]
  constructor
  · intro h
    have hnarrow := congrArg (BitVec.setWidth w) h
    simpa [BitVec.setWidth_setWidth_of_le _ hw] using hnarrow
  · intro h
    simp [h]

/-- The memory an output pointer reaches: its contents by index, and the indices
    stored to so far, oldest first. -/
structure OutBuf where
  mem : Nat → Byte
  stores : List Nat

/-- `buf[i] = v`. -/
def OutBuf.store (out : OutBuf) (i : Nat) (v : Byte) : OutBuf where
  mem := Function.update out.mem i v
  stores := out.stores ++ [i]

/-- `memcpy(buf + dst, src, n)`. -/
def OutBuf.memcpy (out : OutBuf) (dst : Nat) (src : Nat → Byte) : Nat → OutBuf
  | 0 => out
  | n + 1 => (out.memcpy dst src n).store (dst + n) (src n)

/-- `snprintf(buf + dst, size, "%s", s)`, as far as it stores; the formats are
    applied beforehand. -/
def snprintfString (out : OutBuf) (dst size : Nat) (s : List Byte) : OutBuf :=
  if size = 0 then out
  else (out.memcpy dst (fun i => s.getD i 0) (min s.length (size - 1))).store
    (dst + min s.length (size - 1)) 0

@[simp] theorem OutBuf.store_mem (out : OutBuf) (i : Nat) (v : Byte) :
    (out.store i v).mem = Function.update out.mem i v := rfl

@[simp] theorem OutBuf.store_stores (out : OutBuf) (i : Nat) (v : Byte) :
    (out.store i v).stores = out.stores ++ [i] := rfl

theorem OutBuf.memcpy_mem (out : OutBuf) (dst : Nat) (src : Nat → Byte) (n j : Nat) :
    (out.memcpy dst src n).mem j
      = if dst ≤ j ∧ j < dst + n then src (j - dst) else out.mem j := by
  induction n with
  | zero => rw [if_neg (by omega)]; rfl
  | succ n ih =>
    rw [OutBuf.memcpy, OutBuf.store_mem]
    by_cases hj : j = dst + n
    · subst hj
      rw [Function.update_self, if_pos (by omega), Nat.add_sub_cancel_left]
    · rw [Function.update_of_ne hj, ih]
      by_cases hin : dst ≤ j ∧ j < dst + n
      · rw [if_pos hin, if_pos (by omega)]
      · rw [if_neg hin, if_neg (by omega)]

theorem OutBuf.memcpy_stores (out : OutBuf) (dst : Nat) (src : Nat → Byte) (n : Nat) :
    (out.memcpy dst src n).stores = out.stores ++ (List.range n).map (dst + ·) := by
  induction n with
  | zero => simp [OutBuf.memcpy]
  | succ n ih =>
    rw [OutBuf.memcpy, OutBuf.store_stores, ih, List.range_succ, List.map_append]
    simp

@[simp] theorem snprintfString_zero (out : OutBuf) (dst : Nat) (s : List Byte) :
    snprintfString out dst 0 s = out := if_pos rfl

/-! ## Where a piece of code stores -/

/-- Going from `out` to `out'`, only indices from `lo` to `hi` were stored to. -/
structure OutBuf.StoresWithin (out out' : OutBuf) (lo hi : Nat) : Prop where
  stores : ∃ new, out'.stores = out.stores ++ new ∧ ∀ i ∈ new, lo ≤ i ∧ i ≤ hi
  mem : ∀ i, i < lo ∨ hi < i → out'.mem i = out.mem i

theorem OutBuf.StoresWithin.refl (out : OutBuf) (lo hi : Nat) : out.StoresWithin out lo hi :=
  ⟨⟨[], (List.append_nil _).symm, fun _ h => nomatch h⟩, fun _ _ => rfl⟩

theorem OutBuf.StoresWithin.trans {out₁ out₂ out₃ : OutBuf} {lo hi : Nat}
    (h₁ : out₁.StoresWithin out₂ lo hi) (h₂ : out₂.StoresWithin out₃ lo hi) :
    out₁.StoresWithin out₃ lo hi := by
  obtain ⟨new₁, heq₁, hb₁⟩ := h₁.stores
  obtain ⟨new₂, heq₂, hb₂⟩ := h₂.stores
  refine ⟨⟨new₁ ++ new₂, by rw [heq₂, heq₁, List.append_assoc], ?_⟩, ?_⟩
  · intro i hi
    rcases List.mem_append.mp hi with hi | hi
    · exact hb₁ i hi
    · exact hb₂ i hi
  · intro i hi
    rw [h₂.mem i hi, h₁.mem i hi]

theorem OutBuf.StoresWithin.mono {out out' : OutBuf} {lo hi lo' hi' : Nat}
    (h : out.StoresWithin out' lo hi) (hlo : lo' ≤ lo) (hhi : hi ≤ hi') :
    out.StoresWithin out' lo' hi' := by
  obtain ⟨new, heq, hb⟩ := h.stores
  refine ⟨⟨new, heq, fun i hi => ?_⟩, fun i hi => h.mem i (by omega)⟩
  have := hb i hi
  omega

theorem OutBuf.storesWithin_store (out : OutBuf) {i lo hi : Nat} (v : Byte) (hlo : lo ≤ i)
    (hhi : i ≤ hi) : out.StoresWithin (out.store i v) lo hi := by
  refine ⟨⟨[i], rfl, fun j hj => ?_⟩, fun j hj => ?_⟩
  · rw [List.mem_singleton.mp hj]
    exact ⟨hlo, hhi⟩
  · rw [OutBuf.store_mem, Function.update_of_ne (by omega)]

theorem OutBuf.storesWithin_memcpy (out : OutBuf) (src : Nat → Byte) {dst n lo hi : Nat}
    (hlo : lo ≤ dst) (hhi : dst + n ≤ hi + 1) : out.StoresWithin (out.memcpy dst src n) lo hi := by
  refine ⟨⟨_, out.memcpy_stores dst src n, ?_⟩, fun j hj => ?_⟩
  · intro i hi'
    obtain ⟨k, hk, rfl⟩ := List.mem_map.mp hi'
    have := List.mem_range.mp hk
    omega
  · rw [OutBuf.memcpy_mem, if_neg (by omega)]

/-- Going from `out` to `out'`, every index stored to was from `lo` on and below `lim`. -/
def OutBuf.StoresIn (out out' : OutBuf) (lo lim : Nat) : Prop :=
  ∃ new, out'.stores = out.stores ++ new ∧ ∀ i ∈ new, lo ≤ i ∧ i < lim

theorem OutBuf.storesIn_refl (out : OutBuf) (lo lim : Nat) : out.StoresIn out lo lim := ⟨[], (List.append_nil _).symm, nofun⟩

theorem OutBuf.StoresWithin.storesIn {out₁ out₂ : OutBuf} {lo hi lim : Nat}
    (h : out₁.StoresWithin out₂ lo hi) (hlim : hi < lim) : out₁.StoresIn out₂ lo lim := by
  obtain ⟨new, heq, hall⟩ := h.stores
  exact ⟨new, heq, fun i hi => ⟨(hall i hi).1, Nat.lt_of_le_of_lt (hall i hi).2 hlim⟩⟩

/-- The stores of two pieces of code, one after the other. -/
theorem OutBuf.storesIn_trans_iff {out₁ out₂ out₃ : OutBuf} {lo lim : Nat}
    (h₁ : ∃ new, out₂.stores = out₁.stores ++ new)
    (h₂ : ∃ new, out₃.stores = out₂.stores ++ new) :
    out₁.StoresIn out₃ lo lim ↔ out₁.StoresIn out₂ lo lim ∧ out₂.StoresIn out₃ lo lim := by
  obtain ⟨new₁, heq₁⟩ := h₁
  obtain ⟨new₂, heq₂⟩ := h₂
  have heq : out₃.stores = out₁.stores ++ (new₁ ++ new₂) := by
    rw [heq₂, heq₁, List.append_assoc]
  constructor
  · rintro ⟨new, hnew, hall⟩
    obtain rfl : new₁ ++ new₂ = new := List.append_cancel_left (heq.symm.trans hnew)
    obtain ⟨hall₁, hall₂⟩ := List.forall_mem_append.mp hall
    exact ⟨⟨new₁, heq₁, hall₁⟩, new₂, heq₂, hall₂⟩
  · rintro ⟨⟨new, hnew, hall⟩, new', hnew', hall'⟩
    refine ⟨new ++ new', ?_, List.forall_mem_append.mpr ⟨hall, hall'⟩⟩
    rw [hnew', hnew, List.append_assoc]

/-- `snprintf` with the room that is left stores nothing at `size` or behind it. -/
theorem storesWithin_snprintfString (buf : OutBuf) {dst size : Nat} (s : List Byte)
    (hsize : dst < size) :
    buf.StoresWithin (snprintfString buf dst (size - dst) s) 0 (size - 1) := by
  rw [snprintfString, if_neg (by omega)]
  exact (buf.storesWithin_memcpy _ (Nat.zero_le _) (by omega)).trans
    (OutBuf.storesWithin_store _ _ (Nat.zero_le _) (by omega))

/-- Where there is room at all, `snprintf` stores a null byte at or behind its destination. -/
theorem stores_snprintfString (buf : OutBuf) (dst size : Nat) (s : List Byte) :
    ∃ new, (snprintfString buf dst size s).stores = buf.stores ++ new ∧
      (size ≠ 0 → ∃ j ∈ new, dst ≤ j) := by
  by_cases hsize : size = 0
  · rw [snprintfString, if_pos hsize]
    exact ⟨[], (List.append_nil _).symm, fun h => absurd hsize h⟩
  · rw [snprintfString, if_neg hsize, OutBuf.store_stores, OutBuf.memcpy_stores, List.append_assoc]
    exact ⟨_, rfl, fun _ =>
      ⟨_, List.mem_append_right _ List.mem_cons_self, Nat.le_add_right ..⟩⟩

theorem exists_mem_stores_snprintfString (buf : OutBuf) (dst : Nat) {size : Nat} (s : List Byte)
    (hsize : size ≠ 0) : ∃ j ∈ (snprintfString buf dst size s).stores, dst ≤ j := by
  obtain ⟨new, heq, hnew⟩ := stores_snprintfString buf dst size s
  obtain ⟨j, hj, hdst⟩ := hnew hsize
  exact ⟨j, heq ▸ List.mem_append_right _ hj, hdst⟩

end QwNet
