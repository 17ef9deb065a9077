/-
  QwNet.Lib.PrefixCode

  Prefix codes decoded by table lookup.

  A decoder of this kind looks at the next `w` bits of the stream, asks a table for
  the symbol and the length of its code, and advances by that length.  It is
  correct as soon as the table `Resolves` the code: on every window that starts
  with the code of a symbol, it answers that symbol and the length of its code,
  whatever the rest of the window is.  What follows the encoded message can then
  never influence the result (`decode_encode`).
-/
import Mathlib.Data.List.Basic

namespace PrefixCode

variable {α : Type*}

/-- The codes of the symbols, one after the other. -/
def encode (code : α → List Bool) (xs : List α) : List Bool := xs.flatMap code

@[simp] theorem encode_nil (code : α → List Bool) : encode code [] = [] := rfl

@[simp] theorem encode_cons (code : α → List Bool) (x : α) (xs : List α) :
    encode code (x :: xs) = code x ++ encode code xs := rfl

@[simp] theorem encode_append (code : α → List Bool) (xs ys : List α) :
    encode code (xs ++ ys) = encode code xs ++ encode code ys := List.flatMap_append

/-- The `w` bits of a stream from position `pos` on. -/
def window (bit : Nat → Bool) (w pos : Nat) : List Bool :=
  (List.range w).map fun k => bit (pos + k)

@[simp] theorem window_length (bit : Nat → Bool) (w pos : Nat) :
    (window bit w pos).length = w := by
  simp [window]

/-- The table decoder: symbols until `total` bits are consumed, at most `fuel` of them. -/
def decode (lookup : List Bool → α × Nat) (w : Nat) (bit : Nat → Bool) (total : Nat) :
    Nat → Nat → List α
  | 0, _ => []
  | fuel + 1, pos =>
    if pos < total then
      (lookup (window bit w pos)).1
        :: decode lookup w bit total fuel (pos + (lookup (window bit w pos)).2)
    else []

/-- Where the `k`-th symbol of a stream starts, as the table has it. -/
def start (lookup : List Bool → α × Nat) (w : Nat) (bit : Nat → Bool) : Nat → Nat
  | 0 => 0
  | k + 1 => start lookup w bit k + (lookup (window bit w (start lookup w bit k))).2

/-- The `k`-th symbol of a stream. -/
def symbol (lookup : List Bool → α × Nat) (w : Nat) (bit : Nat → Bool) (k : Nat) : α :=
  (lookup (window bit w (start lookup w bit k))).1

theorem start_mono (lookup : List Bool → α × Nat) (w : Nat) (bit : Nat → Bool) {j k : Nat}
    (h : j ≤ k) : start lookup w bit j ≤ start lookup w bit k := by
  induction h with
  | refl => exact Nat.le_refl _
  | step _ ih => exact Nat.le_trans ih (Nat.le_add_right _ _)

theorem start_le {lookup : List Bool → α × Nat} {w m : Nat} (bit : Nat → Bool)
    (hlen : ∀ win, (lookup win).2 ≤ m) (k : Nat) : start lookup w bit k ≤ k * m := by
  induction k with
  | zero => exact Nat.zero_le _
  | succ k ih =>
    rw [start, Nat.succ_mul]
    exact Nat.add_le_add ih (hlen _)

/-- The table decoder returns the symbols that start in the first `total` bits, as far as its fuel
    goes. -/
theorem decode_eq_map (lookup : List Bool → α × Nat) (w : Nat) (bit : Nat → Bool) (total : Nat)
    (fuel i : Nat) : ∃ n ≤ fuel, decode lookup w bit total fuel (start lookup w bit i)
      = (List.range n).map (fun k => symbol lookup w bit (i + k)) ∧
      (∀ k < n, start lookup w bit (i + k) < total) ∧
      (n = fuel ∨ total ≤ start lookup w bit (i + n)) := by
  induction fuel generalizing i with
  | zero => exact ⟨0, Nat.le_refl _, rfl, fun k hk => absurd hk (Nat.not_lt_zero k), .inl rfl⟩
  | succ fuel ih =>
    rw [decode]
    by_cases hgo : start lookup w bit i < total
    · obtain ⟨n, hn, hmap, hall, hstop⟩ := ih (i + 1)
      have hassoc : ∀ k, i + (k + 1) = i + 1 + k := fun k => by omega
      rw [if_pos hgo]
      refine ⟨n + 1, Nat.succ_le_succ hn, ?_, fun k hk => ?_, ?_⟩
      · rw [List.range_succ_eq_map, List.map_cons, List.map_map]
        refine congrArg₂ List.cons rfl (hmap.trans (List.map_congr_left fun k _ => ?_))
        exact congrArg (symbol lookup w bit) (hassoc k).symm
      · cases k with
        | zero => exact hgo
        | succ k =>
          rw [hassoc]
          exact hall k (Nat.lt_of_succ_lt_succ hk)
      · rw [hassoc]
        exact hstop.imp_left (congrArg (· + 1))
    · rw [if_neg hgo]
      refine ⟨0, Nat.zero_le _, rfl, fun k hk => absurd hk (Nat.not_lt_zero k), .inr ?_⟩
      exact Nat.not_lt.mp hgo

/-- The table answers every window that starts with the code of a symbol. -/
def Resolves (code : α → List Bool) (lookup : List Bool → α × Nat) (w : Nat) : Prop :=
  ∀ a win, win.length = w → code a <+: win → lookup win = (a, (code a).length)

/-- A window that lies over the code of a symbol starts with that code. -/
theorem prefix_window {bit : Nat → Bool} {w pos : Nat} {xs : List Bool} (hw : xs.length ≤ w)
    (hbit : ∀ k (h : k < xs.length), bit (pos + k) = xs[k]) : xs <+: window bit w pos := by
  rw [List.prefix_iff_eq_take]
  apply List.ext_getElem
  · rw [List.length_take, window_length, Nat.min_eq_left hw]
  · intro k hk _
    rw [List.getElem_take, ← hbit k hk]
    simp [window]

/-- Decoding from the middle of a stream that starts with the encoding of `xs ++ ys`
    and has had `xs` read. -/
theorem decode_encode_from {code : α → List Bool} {lookup : List Bool → α × Nat} {w : Nat}
    (hres : Resolves code lookup w) (hpos : ∀ a, 0 < (code a).length)
    (hw : ∀ a, (code a).length ≤ w) (bit : Nat → Bool) (xs ys : List α)
    (hbit : ∀ i (h : i < (encode code (xs ++ ys)).length),
      bit i = (encode code (xs ++ ys))[i])
    (fuel : Nat) (hfuel : ys.length ≤ fuel) :
    decode lookup w bit (encode code (xs ++ ys)).length fuel (encode code xs).length = ys := by
  induction ys generalizing xs fuel with
  | nil => cases fuel <;> simp [decode]
  | cons y ys ih =>
    obtain ⟨fuel, rfl⟩ : ∃ n, fuel = n + 1 := ⟨fuel - 1, by simp at hfuel; omega⟩
    have hlen : (encode code (xs ++ y :: ys)).length
        = (encode code xs).length + (code y).length + (encode code ys).length := by
      simp; omega
    have hwin : lookup (window bit w (encode code xs).length) = (y, (code y).length) := by
      apply hres y _ (window_length ..) (prefix_window (hw y) _)
      intro k hk
      rw [hbit _ (by omega)]
      simp [List.getElem_append_left hk]
    have hy := hpos y
    rw [decode, if_pos (by omega), hwin]
    congr 1
    have := ih (xs ++ [y]) (by simpa using hbit) fuel (by simpa using hfuel)
    simpa using this

/-- **Round trip.**  A stream that starts with the encoding of `xs` decodes to `xs`. -/
theorem decode_encode {code : α → List Bool} {lookup : List Bool → α × Nat} {w : Nat}
    (hres : Resolves code lookup w) (hpos : ∀ a, 0 < (code a).length)
    (hw : ∀ a, (code a).length ≤ w) (bit : Nat → Bool) (xs : List α)
    (hbit : ∀ i (h : i < (encode code xs).length), bit i = (encode code xs)[i])
    (fuel : Nat) (hfuel : xs.length ≤ fuel) :
    decode lookup w bit (encode code xs).length fuel 0 = xs := by
  simpa using decode_encode_from hres hpos hw bit [] xs (by simpa using hbit) fuel hfuel

end PrefixCode
