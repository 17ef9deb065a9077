/-
  QwNet.Huffman.Encoder

  What `huffencbyte` and `Huff_CompressPacket` leave in the output buffer.

  The table-driven writer is tied to bit streams: after coding the bytes `q`, the
  buffer holds the concatenation of their codes, and every index it stored to lies
  within a few bytes of the end of that stream.
-/
import QwNet.Huffman.TableFacts
import QwNet.Lib.BitStream

namespace QwNet

open BitStream

/-! ## One byte -/

/-- The bits `huffencbyte` ORs into the current byte: the code, from bit `l % 8` on. -/
theorem bitswap_shift_getLsbD (code : BitVec 16) (m j : Nat) (hm : m < 8) (hj : j < 8) :
    (bitswap (code >>> (16 - (8 - m))).toNat).getLsbD j
      = (decide (m ≤ j) && code.getMsbD (j - m)) := by
  have hsmall : (code >>> (16 - (8 - m))).toNat
      = ((code >>> (16 - (8 - m))).setWidth 8).toNat := by
    have hlt : code.toNat / 2 ^ (16 - (8 - m)) ≤ code.toNat / 2 ^ 8 :=
      Nat.div_le_div_left (Nat.pow_le_pow_right (by decide) (by omega)) (by decide)
    have hcode : code.toNat < 2 ^ 16 := code.isLt
    rw [BitVec.toNat_setWidth, BitVec.toNat_ushiftRight, Nat.shiftRight_eq_div_pow,
      Nat.mod_eq_of_lt (by omega)]
  rw [hsmall, bitswap_getLsbD, BitVec.getMsbD, BitVec.getLsbD_setWidth, BitVec.getLsbD_ushiftRight]
  by_cases hmj : m ≤ j
  · rw [BitVec.getMsbD, show 16 - (8 - m) + (8 - 1 - j) = 16 - 1 - (j - m) from by omega]
    simp [hmj, hj, show j - m < 16 by omega, show 8 - 1 - j < 8 by omega]
  · rw [BitVec.getLsbD_of_ge code _ (by omega)]
    simp [hmj]

/-- The code bits of one pass of the loop, followed by those left for the next passes. -/
theorem map_getMsbD_split (code : BitVec 16) (n size : Nat) (h : n ≤ size) :
    (List.range size).map code.getMsbD
      = (List.range n).map code.getMsbD
        ++ (List.range (size - n)).map (code <<< n).getMsbD := by
  conv_lhs => rw [show size = n + (size - n) from by omega, List.range_add, List.map_append,
    List.map_map]
  congr 1
  apply List.map_congr_left
  intro k _
  rw [Function.comp_apply, BitVec.getMsbD_shiftLeft, Nat.add_comm]

/-- The loop of `huffencbyte` appends the first `size` bits of `code` to the stream. -/
theorem huffEncBits_spec {base : Nat} (fuel : Nat) :
    ∀ (code : BitVec 16) (size o l : Nat) (out : OutBuf) (bits : List Bool),
      Padded out.mem base bits → l = bits.length → o = base + l / 8 → size ≤ fuel →
      l + size < 2 ^ 32 → (∀ k, size ≤ k → code.getMsbD k = false) →
      (huffEncBits fuel code size (8 - l % 8) o l out).1 = l + size ∧
      Padded (huffEncBits fuel code size (8 - l % 8) o l out).2.mem base
        (bits ++ (List.range size).map code.getMsbD) ∧
      out.StoresWithin (huffEncBits fuel code size (8 - l % 8) o l out).2 base
        (base + (l + size) / 8 + 1) := by
  induction fuel with
  | zero =>
    intro code size o l out bits hpad hl ho hsize hlt htail
    obtain rfl : size = 0 := by omega
    exact ⟨rfl, by simpa [huffEncBits] using hpad, .refl ..⟩
  | succ fuel ih =>
    intro code size o l out bits hpad hl ho hsize hlt htail
    rw [huffEncBits]
    by_cases h0 : size = 0
    · subst h0
      rw [if_pos rfl]
      exact ⟨rfl, by simpa using hpad, .refl ..⟩
    · rw [if_neg h0]
      obtain ⟨n, hn⟩ : ∃ n, n = if size < 8 - l % 8 then size else 8 - l % 8 := ⟨_, rfl⟩
      have hn_size : n ≤ size := by split at hn <;> omega
      have hn_left : n ≤ 8 - l % 8 := by split at hn <;> omega
      simp only [← hn]
      rw [Nat.mod_eq_of_lt (by omega : l + n < 2 ^ 32)]
      -- the two stores of this pass append `n` code bits
      obtain ⟨v, hv⟩ : ∃ v, v = bitswap (code >>> (16 - (8 - l % 8))).toNat := ⟨_, rfl⟩
      obtain ⟨out', hout'⟩ :
          ∃ out', out' = (out.store o (out.mem o ||| v)).store (o + 1) 0 := ⟨_, rfl⟩
      have hvbits : ∀ j, j < 8 → v.getLsbD j = (decide (bits.length % 8 ≤ j)
          && ((List.range n).map code.getMsbD).getD (j - bits.length % 8) false) := by
        intro j hj
        rw [hv, bitswap_shift_getLsbD code (l % 8) j (by omega) hj, hl]
        by_cases hle : bits.length % 8 ≤ j
        · by_cases hjn : j - bits.length % 8 < n
          · simp [hjn]
          · rw [htail (j - bits.length % 8) (by split at hn <;> omega)]
            simp [hjn]
        · simp [hle]
      have hmem' : Padded out'.mem base (bits ++ (List.range n).map code.getMsbD) := by
        rw [hout']
        refine hpad.append (by rw [ho, hl]) ?_ hvbits
        rw [List.length_map, List.length_range, ← hl]
        exact hn_left
      have hstores' : out.StoresWithin out' base (base + (l + size) / 8 + 1) := by
        rw [hout']
        exact (out.storesWithin_store _ (by omega) (by omega)).trans
          (OutBuf.storesWithin_store _ _ (by omega) (by omega))
      rw [← hv, ← hout']
      by_cases hlast : size < 8 - l % 8
      · -- the code ends inside this byte
        obtain rfl : n = size := by rw [hn, if_pos hlast]
        have hdone : huffEncBits fuel (code <<< n) (n - n) 8 (o + 1) (l + n) out'
            = (l + n, out') := by
          cases fuel <;> simp [huffEncBits]
        rw [hdone]
        exact ⟨rfl, hmem', hstores'⟩
      · -- the byte is full, and the next one starts empty
        have hnl : n = 8 - l % 8 := by rw [hn, if_neg hlast]
        have hrec := ih (code <<< n) (size - n) (o + 1) (l + n) out'
          (bits ++ (List.range n).map code.getMsbD) hmem' (by simp [hl]) (by omega) (by omega)
          (by omega) (by
            intro k hk
            rw [BitVec.getMsbD_shiftLeft]
            exact htail _ (by omega))
        rw [show 8 - (l + n) % 8 = 8 from by omega, show l + n + (size - n) = l + size from by omega,
          List.append_assoc, ← map_getMsbD_split code n size hn_size] at hrec
        obtain ⟨hlen, hres, hbound⟩ := hrec
        exact ⟨hlen, hres, hstores'.trans hbound⟩

/-- `huffencbyte` appends the code of its byte to the stream. -/
theorem huffEncByte_spec {ht : HuffTables} (hs : ht.Sound) {base : Nat} (b : Byte) (out : OutBuf)
    (bits : List Bool) (hbits : Between out.mem base bits) (hlt : bits.length + 11 < 2 ^ 32) :
    (huffEncByte ht b base bits.length out).1 = (bits ++ (ht.enc b).bits).length ∧
    Padded (huffEncByte ht b base bits.length out).2.mem base (bits ++ (ht.enc b).bits) ∧
    out.StoresWithin (huffEncByte ht b base bits.length out).2 base
      (base + (bits.length + 11) / 8 + 1) := by
  have hle := hs.len_le b
  -- a new byte is cleared before the loop starts
  obtain ⟨out', hout'⟩ : ∃ out', out'
      = if 8 - bits.length % 8 = 8 then out.store (base + bits.length / 8) 0 else out := ⟨_, rfl⟩
  have hstart : Padded out'.mem base bits ∧
      out.StoresWithin out' base (base + (bits.length + 11) / 8 + 1) := by
    rw [hout']
    by_cases h0 : bits.length % 8 = 0
    · rw [if_pos (by omega)]
      exact ⟨hbits.clear h0, out.storesWithin_store _ (by omega) (by omega)⟩
    · rw [if_neg (by omega)]
      exact ⟨hbits.pad h0, .refl ..⟩
  obtain ⟨hlen, hpad, hbound⟩ := huffEncBits_spec (ht.enc b).len.toNat (ht.enc b).code
    (ht.enc b).len.toNat (base + bits.length / 8) bits.length out' bits hstart.1 rfl rfl
    (Nat.le_refl _) (by omega) (hs.tail b)
  simp only [huffEncByte]
  rw [← hout']
  exact ⟨by simpa using hlen, hpad, hstart.2.trans (hbound.mono (Nat.le_refl _) (by omega))⟩

/-! ## The whole payload -/

/-- The code of a byte under given tables. -/
def HuffTables.codeBits (ht : HuffTables) (b : Byte) : List Bool := (ht.enc b).bits

/-- The coding loop stops in front of `rest`, having coded `q`. -/
theorem huffEncLoop_spec {ht : HuffTables} (hs : ht.Sound) {n buffer : Nat}
    (hn : 8 * n + 11 < 2 ^ 32) (bs : List Byte) :
    ∀ (done : List Byte) (out : OutBuf),
      Between out.mem buffer (PrefixCode.encode ht.codeBits done) →
      (done ≠ [] → Padded out.mem buffer (PrefixCode.encode ht.codeBits done)) →
      ∃ q rest, bs = q ++ rest ∧
        (rest = [] ∨ n ≤ (PrefixCode.encode ht.codeBits (done ++ q)).length / 8) ∧
        (huffEncLoop ht n buffer bs (PrefixCode.encode ht.codeBits done).length out).1
          = (PrefixCode.encode ht.codeBits (done ++ q)).length ∧
        (done ++ q ≠ [] →
          Padded (huffEncLoop ht n buffer bs (PrefixCode.encode ht.codeBits done).length out).2.mem
            buffer (PrefixCode.encode ht.codeBits (done ++ q))) ∧
        out.StoresWithin
          (huffEncLoop ht n buffer bs (PrefixCode.encode ht.codeBits done).length out).2
          buffer (buffer + n + 2) := by
  induction bs with
  | nil =>
    intro done out _ hpad
    rw [huffEncLoop]
    refine ⟨[], [], rfl, .inl rfl, by rw [List.append_nil], ?_, .refl ..⟩
    rw [List.append_nil]
    exact hpad
  | cons b bs ih =>
    intro done out hb hpad
    rw [huffEncLoop]
    by_cases hgo : (PrefixCode.encode ht.codeBits done).length / 8 < n
    · rw [if_pos hgo]
      obtain ⟨hlen, hpadded, hbound⟩ := huffEncByte_spec hs b out _ hb (by omega)
      have hdone : PrefixCode.encode ht.codeBits done ++ (ht.enc b).bits
          = PrefixCode.encode ht.codeBits (done ++ [b]) := by
        simp [HuffTables.codeBits]
      rw [hdone] at hlen hpadded
      -- the bits of this byte are part of what the rest of the loop starts from
      obtain ⟨q, rest, hsplit, hstop, hlen', hpad', hbound'⟩ :=
        ih (done ++ [b]) _ hpadded.between fun _ => hpadded
      rw [← hlen] at hlen' hpad' hbound'
      refine ⟨b :: q, rest, by rw [hsplit]; rfl, ?_, ?_, ?_, ?_⟩
      · simpa using hstop
      · simpa using hlen'
      · simpa using hpad'
      · exact (hbound.mono (Nat.le_refl _) (by omega)).trans hbound'
    · rw [if_neg hgo]
      -- the code is no shorter than the payload, and the loop gives up
      refine ⟨[], b :: bs, rfl, .inr (by simpa using hgo), by rw [List.append_nil], ?_, .refl ..⟩
      rw [List.append_nil]
      exact hpad

/-- Which form the compressor chooses, and what it stores then.  The coded form ends with one more
    byte when the codes end with a byte. -/
theorem huffCompressPacket_forms {ht : HuffTables} (hs : ht.Sound) (p : List Byte) (out : OutBuf)
    (outbuf outbuflen : Nat) (hn : 8 * p.length + 11 < 2 ^ 32) (hfit : p.length < outbuflen) :
    let bits := PrefixCode.encode ht.codeBits p
    let r := huffCompressPacket ht p out outbuf outbuflen
    (bits.length / 8 < p.length → r.1 = bits.length / 8 + 2 ∧
      r.2.mem outbuf = BitVec.ofNat 8 (8 - bits.length % 8) ∧ Padded r.2.mem (outbuf + 1) bits) ∧
    (p.length ≤ bits.length / 8 → r.1 = p.length + 1 ∧ r.2.mem outbuf = 0x80#8 ∧
      ∀ i (h : i < p.length), r.2.mem (outbuf + 1 + i) = p[i]) ∧
    out.StoresWithin r.2 outbuf (outbuf + p.length + 3) := by
  intro bits r
  obtain ⟨q, rest, hsplit, hstop, hlen, hpad, hbound⟩ := @huffEncLoop_spec ht hs p.length
    (outbuf + 1) hn p [] out (Between.nil ..) fun hne => absurd rfl hne
  simp only [List.nil_append, PrefixCode.encode_nil, List.length_nil] at hstop hlen hpad hbound
  have hr : r = huffCompressPacket ht p out outbuf outbuflen := rfl
  simp only [huffCompressPacket, not_not.mpr (show outbuflen > p.length from hfit), if_false,
    hlen] at hr
  by_cases hlong : (PrefixCode.encode ht.codeBits q).length / 8 ≥ p.length
  · rw [if_pos hlong] at hr
    -- the codes of all of `p` are no shorter
    have hle : (PrefixCode.encode ht.codeBits q).length ≤ bits.length := by
      show _ ≤ (PrefixCode.encode ht.codeBits p).length
      rw [hsplit, PrefixCode.encode_append, List.length_append]
      exact Nat.le_add_right _ _
    have hstored : p.length ≤ bits.length / 8 :=
      Nat.le_trans hlong (Nat.div_le_div_right hle)
    refine ⟨fun hshort => absurd hstored (Nat.not_le.mpr hshort), fun _ => ⟨?_, ?_, ?_⟩, ?_⟩
    · rw [hr]
    · rw [hr]
      simp
    · intro i hi
      rw [hr, OutBuf.store_mem, Function.update_of_ne (by omega), OutBuf.memcpy_mem,
        if_pos (by omega)]
      simp [hi]
    · rw [hr]
      exact (hbound.mono (by omega) (by omega)).trans
        ((OutBuf.storesWithin_memcpy _ _ (by omega) (by omega)).trans
          (OutBuf.storesWithin_store _ _ (by omega) (by omega)))
  · -- the loop was not left early, so all of `p` is coded
    rw [if_neg hlong] at hr
    obtain rfl : rest = [] := by
      rcases hstop with h | h
      · exact h
      · exact absurd h hlong
    obtain rfl : p = q := by simpa using hsplit
    have hshort : bits.length / 8 < p.length := Nat.not_le.mp hlong
    have hbits : (PrefixCode.encode ht.codeBits p).length = bits.length := rfl
    rw [hbits, Nat.mod_eq_of_lt (by omega), show (bits.length + 8) / 8 + 1 = bits.length / 8 + 2 from
      by omega] at hr
    have hne : p ≠ [] := by
      rintro rfl
      exact absurd hshort (Nat.not_lt_zero _)
    refine ⟨fun _ => ⟨?_, ?_, ?_⟩, fun hstored => absurd hstored (Nat.not_le.mpr hshort), ?_⟩
    · rw [hr]
    · rw [hr]
      simp
    · -- the header is stored in front of the stream
      have hkeep : ∀ i, bitAt r.2.mem (outbuf + 1) i
          = bitAt (huffEncLoop ht p.length (outbuf + 1) p 0 out).2.mem (outbuf + 1) i := by
        intro i
        rw [hr]
        exact bitAt_update_of_ne (by omega)
      have hpadded := hpad hne
      exact ⟨fun i hi => (hkeep i).trans (hpadded.holds i hi),
        fun i hlo hhi => (hkeep i).trans (hpadded.pad i hlo hhi)⟩
    · rw [hr]
      exact (hbound.mono (by omega) (by omega)).trans
        (OutBuf.storesWithin_store _ _ (by omega) (by omega))

/-- What the compressor returns and stores: the coded form when the codes take fewer
    bytes than the payload, the stored form otherwise. -/
inductive Compressed (ht : HuffTables) (p : List Byte) (mem : Nat → Byte) (outbuf : Nat) :
    Nat → Prop where
  | coded (hshort : (PrefixCode.encode ht.codeBits p).length / 8 < p.length)
      (hheader : mem outbuf
        = BitVec.ofNat 8 (8 - (PrefixCode.encode ht.codeBits p).length % 8))
      (hbits : Holds mem (outbuf + 1) (PrefixCode.encode ht.codeBits p)) :
      Compressed ht p mem outbuf ((PrefixCode.encode ht.codeBits p).length / 8 + 2)
  | stored (hheader : mem outbuf = 0x80#8)
      (hbytes : ∀ i (h : i < p.length), mem (outbuf + 1 + i) = p[i]) :
      Compressed ht p mem outbuf (p.length + 1)

theorem huffCompressPacket_spec {ht : HuffTables} (hs : ht.Sound) (p : List Byte) (out : OutBuf)
    (outbuf outbuflen : Nat) (hn : 8 * p.length + 11 < 2 ^ 32) (hfit : p.length < outbuflen) :
    Compressed ht p (huffCompressPacket ht p out outbuf outbuflen).2.mem outbuf
      (huffCompressPacket ht p out outbuf outbuflen).1 ∧
    out.StoresWithin (huffCompressPacket ht p out outbuf outbuflen).2 outbuf
      (outbuf + p.length + 3) := by
  obtain ⟨hcoded, hstored, hbound⟩ := huffCompressPacket_forms hs p out outbuf outbuflen hn hfit
  refine ⟨?_, hbound⟩
  by_cases hshort : (PrefixCode.encode ht.codeBits p).length / 8 < p.length
  · obtain ⟨hlen, hheader, hpad⟩ := hcoded hshort
    rw [hlen]
    exact .coded hshort hheader hpad.holds
  · obtain ⟨hlen, hheader, hbytes⟩ := hstored (Nat.not_lt.mp hshort)
    rw [hlen]
    exact .stored hheader hbytes

end QwNet
