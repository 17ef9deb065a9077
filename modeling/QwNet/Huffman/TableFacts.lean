/-
  QwNet.Huffman.TableFacts

  What the codec needs of its constant tables.

  * `bitswaptable` reverses the bits of a byte.
  * Every `q3` code has 1 to 11 bits, and no bit set beyond them.
  * The `q3` decoder table answers every 11-bit index that starts with the code of
    a byte with that byte and the length of its code.

  The last fact is checked by one walk over both tables (`covers`): the encoder
  entries in the order of their codes eat the decoder entries run by run.
-/
import QwNet.Huffman.Codec
import QwNet.Lib.PrefixCode
import Mathlib.Data.List.Sort

namespace QwNet

/-! ## Bit reversal -/

theorem bitswaptable_eq :
    bitswaptable = (List.range 256).map fun i => (BitVec.ofNat 8 i).reverse.toNat := by
  decide +kernel

theorem bitswap_toNat (b : Byte) : bitswap b.toNat = b.reverse := by
  have hb : b.toNat < 256 := b.isLt
  rw [bitswap, bitswaptable_eq]
  simp [List.getD_eq_getElem?_getD, hb]

theorem bitswap_getLsbD (b : Byte) (i : Nat) : (bitswap b.toNat).getLsbD i = b.getMsbD i := by
  rw [bitswap_toNat, BitVec.getLsbD_reverse]

/-! ## The codes -/

/-- The first `len` bits of the code of an entry, most significant first. -/
def HuffEncEntry.bits (e : HuffEncEntry) : List Bool :=
  (List.range e.len.toNat).map fun k => e.code.getMsbD k

@[simp] theorem HuffEncEntry.bits_length (e : HuffEncEntry) : e.bits.length = e.len.toNat := by
  simp [HuffEncEntry.bits]

theorem HuffEncEntry.bits_getElem (e : HuffEncEntry) (k : Nat) (h : k < e.bits.length) :
    e.bits[k] = e.code.getMsbD k := by
  simp [HuffEncEntry.bits]

/-- What the codec asks of a pair of tables. -/
structure HuffTables.Sound (ht : HuffTables) : Prop where
  len_pos : ∀ b, 0 < (ht.enc b).len.toNat
  len_le : ∀ b, (ht.enc b).len.toNat ≤ 11
  /-- No code has a bit beyond its length. -/
  tail : ∀ b k, (ht.enc b).len.toNat ≤ k → (ht.enc b).code.getMsbD k = false
  /-- The decoder table answers every index that starts with a code. -/
  dec : ∀ b i, i / 2 ^ (11 - (ht.enc b).len.toNat)
      = (ht.enc b).code.toNat / 2 ^ (16 - (ht.enc b).len.toNat) →
    ht.dec i = ⟨b, (ht.enc b).len⟩

/-! ## The walk over the `q3` tables -/

/-- Eats `n` decoder entries, all of which must answer `(b, len)`. -/
def eatRun (b len : Nat) : Nat → List (Nat × Nat) → Option (List (Nat × Nat))
  | 0, dec => some dec
  | n + 1, d :: dec =>
    bif Nat.beq (d.1 % 256) b && Nat.beq d.2 len then eatRun b len n dec else none
  | _ + 1, [] => none

/-- Walks over the decoder entries from index `idx` on with encoder entries (and the
    bytes they code) in increasing order of their codes. -/
def covers : Nat → List ((Nat × Nat) × Nat) → List (Nat × Nat) → Bool
  | _, [], _ => true
  | idx, ((len, code), b) :: es, dec =>
    Nat.ble 1 len && Nat.ble len 11 && Nat.ble code 65535
      && Nat.beq (code % 2 ^ (16 - len)) 0 && Nat.ble idx (code / 32)
      && match eatRun b len (2 ^ (11 - len)) (dec.drop (code / 32 - idx)) with
        | some rest => covers (code / 32 + 2 ^ (11 - len)) es rest
        | none => false

theorem eatRun_eq_some {b len n : Nat} {dec rest : List (Nat × Nat)}
    (h : eatRun b len n dec = some rest) :
    rest = dec.drop n ∧ ∀ k, k < n → ∃ d, dec[k]? = some d ∧ d.1 % 256 = b ∧ d.2 = len := by
  induction n generalizing dec with
  | zero =>
    simp only [eatRun, Option.some.injEq] at h
    exact ⟨by simp [h], fun k hk => absurd hk (Nat.not_lt_zero k)⟩
  | succ n ih =>
    cases dec with
    | nil => simp [eatRun] at h
    | cons d dec =>
      simp only [eatRun, cond_eq_ite, Bool.and_eq_true, Nat.beq_eq] at h
      by_cases hd : d.1 % 256 = b ∧ d.2 = len
      · rw [if_pos hd] at h
        obtain ⟨hrest, hrun⟩ := ih h
        refine ⟨by simpa using hrest, ?_⟩
        intro k hk
        cases k with
        | zero => exact ⟨d, rfl, hd⟩
        | succ k => exact hrun k (by omega)
      · rw [if_neg hd] at h
        exact nomatch h

/-- What a successful walk says about each entry it met. -/
theorem covers_sound (dec : List (Nat × Nat)) {idx : Nat} {es : List ((Nat × Nat) × Nat)}
    (h : covers idx es (dec.drop idx) = true) :
    ∀ len code b, ((len, code), b) ∈ es →
      1 ≤ len ∧ len ≤ 11 ∧ code ≤ 65535 ∧ code % 2 ^ (16 - len) = 0 ∧
      ∀ k, k < 2 ^ (11 - len) →
        ∃ d, dec[code / 32 + k]? = some d ∧ d.1 % 256 = b ∧ d.2 = len := by
  induction es generalizing idx with
  | nil => exact fun len code b hmem => nomatch hmem
  | cons e es ih =>
    obtain ⟨⟨len₀, code₀⟩, b₀⟩ := e
    simp only [covers, Bool.and_eq_true, Nat.ble_eq, Nat.beq_eq] at h
    obtain ⟨⟨⟨⟨⟨hpos, hle⟩, hcode⟩, htail⟩, hidx⟩, hwalk⟩ := h
    cases heat : eatRun b₀ len₀ (2 ^ (11 - len₀)) ((dec.drop idx).drop (code₀ / 32 - idx)) with
    | none => rw [heat] at hwalk; exact nomatch hwalk
    | some rest =>
      rw [heat] at hwalk
      obtain ⟨hrest, hrun⟩ := eatRun_eq_some heat
      have hdrop : (dec.drop idx).drop (code₀ / 32 - idx) = dec.drop (code₀ / 32) := by
        rw [List.drop_drop]
        congr 1
        omega
      intro len code b hmem
      rcases List.mem_cons.mp hmem with heq | hmem
      · obtain ⟨⟨rfl, rfl⟩, rfl⟩ : (len = len₀ ∧ code = code₀) ∧ b = b₀ := by simpa using heq
        refine ⟨hpos, hle, hcode, htail, ?_⟩
        intro k hk
        have hget := hrun k hk
        rw [hdrop, List.getElem?_drop] at hget
        exact hget
      · rw [hdrop, List.drop_drop] at hrest
        rw [hrest] at hwalk
        exact ih hwalk len code b hmem

/-- The walk over the `q3` tables succeeds. -/
theorem covers_q3 :
    covers 0 (huffenctableQ3Init.zipIdx.insertionSort fun x y => x.1.2 ≤ y.1.2)
      huffdectableQ3Init = true := by
  decide +kernel

theorem huffenctableQ3Init_length : huffenctableQ3Init.length = 256 := by
  decide +kernel

/-- The facts of the walk, for the entry of byte `b`. -/
theorem q3_entry (b : Byte) : ∃ len code,
    hufftablesQ3.enc b = ⟨BitVec.ofNat 8 len, BitVec.ofNat 16 code⟩ ∧
    1 ≤ len ∧ len ≤ 11 ∧ code ≤ 65535 ∧ code % 2 ^ (16 - len) = 0 ∧
    ∀ k, k < 2 ^ (11 - len) →
      ∃ d, huffdectableQ3Init[code / 32 + k]? = some d ∧ d.1 % 256 = b.toNat ∧ d.2 = len := by
  have hb : b.toNat < huffenctableQ3Init.length := by
    rw [huffenctableQ3Init_length]
    exact b.isLt
  obtain ⟨⟨len, code⟩, he⟩ : ∃ e, huffenctableQ3Init[b.toNat] = e := ⟨_, rfl⟩
  have hmem : ((len, code), b.toNat)
      ∈ huffenctableQ3Init.zipIdx.insertionSort fun x y => x.1.2 ≤ y.1.2 := by
    rw [List.mem_insertionSort, List.mem_zipIdx_iff_getElem?, List.getElem?_eq_getElem hb, he]
  have hwalk : covers 0 (huffenctableQ3Init.zipIdx.insertionSort fun x y => x.1.2 ≤ y.1.2)
      (huffdectableQ3Init.drop 0) = true := covers_q3
  refine ⟨len, code, ?_, covers_sound _ hwalk len code _ hmem⟩
  simp [HuffTables.enc, hufftablesQ3, List.getElem?_eq_getElem hb, he]

/-- An index that agrees with a code in its leading `len` bits lies in the run of that code. -/
theorem run_of_div_eq {len code i : Nat} (hle : len ≤ 11) (htail : code % 2 ^ (16 - len) = 0)
    (hi : i / 2 ^ (11 - len) = code / 2 ^ (16 - len)) :
    i = code / 32 + i % 2 ^ (11 - len) := by
  have hpow : 2 ^ (16 - len) = 32 * 2 ^ (11 - len) := by
    rw [show 16 - len = 5 + (11 - len) from by omega, Nat.pow_add]
  have hcode : code = 2 ^ (16 - len) * (code / 2 ^ (16 - len)) := by
    have := Nat.div_add_mod code (2 ^ (16 - len))
    omega
  have hdiv : code / 32 = 2 ^ (11 - len) * (code / 2 ^ (16 - len)) := by
    conv_lhs => rw [hcode, hpow, Nat.mul_assoc]
    rw [Nat.mul_div_cancel_left _ (by decide), ← hpow]
  rw [hdiv, ← hi]
  exact (Nat.div_add_mod i _).symm

/-- The `q3` tables are what the codec needs. -/
theorem hufftablesQ3_sound : hufftablesQ3.Sound := by
  refine ⟨?_, ?_, ?_, ?_⟩ <;> intro b <;>
    obtain ⟨len, code, he, hpos, hle, hcode, htail, hrun⟩ := q3_entry b <;>
    have hlen : (hufftablesQ3.enc b).len.toNat = len := by
      rw [he, BitVec.toNat_ofNat, Nat.mod_eq_of_lt (by omega)]
  · omega
  · omega
  · intro k hk
    rw [he]
    by_cases hk16 : k < 16
    · have hbit := Nat.testBit_mod_two_pow code (16 - len) (15 - k)
      rw [htail, Nat.zero_testBit, decide_eq_true (by omega), Bool.true_and] at hbit
      simp [BitVec.getMsbD, BitVec.getLsbD_ofNat, ← hbit]
    · exact BitVec.getMsbD_of_ge _ k (by omega)
  · intro i hi
    have hcodeNat : (hufftablesQ3.enc b).code.toNat = code := by
      rw [he, BitVec.toNat_ofNat, Nat.mod_eq_of_lt (by omega)]
    rw [hlen, hcodeNat] at hi
    obtain ⟨d, hd, hval, hdlen⟩ := hrun (i % 2 ^ (11 - len)) (Nat.mod_lt _ (Nat.two_pow_pos _))
    have hi' := run_of_div_eq hle htail hi
    have hvalue : BitVec.ofNat 8 d.1 = b := by
      apply BitVec.eq_of_toNat_eq
      rw [BitVec.toNat_ofNat, hval]
    rw [he, HuffTables.dec, hufftablesQ3, List.getD_eq_getElem?_getD, List.getElem?_map, hi', hd]
    simp [hvalue, hdlen]

end QwNet
