/-
  QwNet.Huffman.RoundTrip

  The decompressor as a table decoder of a prefix code, and the round trip.

  `huffdecbyte` reads sixteen bits of the stream at any bit offset and looks up the
  leading eleven (`huffDecIndex_getMsbD`); with sound tables that is the `lookup`
  of a prefix code, so the loop of `Huff_DecompressPacket` is
  `PrefixCode.decode`, and what lies behind the packet cannot matter.
-/
import QwNet.Huffman.Encoder

namespace QwNet

open BitStream

/-! ## One symbol -/

/-- Bit `k` of `index`, from the top, is the `k`-th next bit of the stream. -/
theorem huffDecIndex_getMsbD (mem : Nat → Byte) (inbuf l k : Nat) (hk : k < 16) :
    (huffDecIndex mem inbuf l).getMsbD k = bitAt mem inbuf (l + k) := by
  have hrev : ∀ (b : Byte) (i : Nat), (bitswap b.toNat).getLsbD i
      = (decide (i < 8) && b.getLsbD (7 - i)) := by
    intro b i
    rw [bitswap_getLsbD, BitVec.getMsbD]
  rw [BitVec.getMsbD, huffDecIndex, bitAt]
  simp only [BitVec.getLsbD_or, BitVec.getLsbD_shiftLeft, BitVec.getLsbD_ushiftRight,
    BitVec.zeroExtend, BitVec.getLsbD_setWidth, hrev, hk, decide_true, Bool.true_and]
  -- the bit comes from the first, the second or the third byte
  rcases Nat.lt_or_ge (l % 8 + k) 8 with h1 | h1
  · rw [show (l + k) / 8 = l / 8 from by omega, show (l + k) % 8 = l % 8 + k from by omega]
    simp [show ¬ 16 - 1 - k < l % 8 + 8 by omega, show ¬ 16 - 1 - k - l % 8 < 8 by omega,
      show ¬ 8 - l % 8 + (16 - 1 - k) < 8 by omega, show 16 - 1 - k - (l % 8 + 8) < 8 by omega,
      show 7 - (16 - 1 - k - (l % 8 + 8)) = l % 8 + k by omega, show 16 - 1 - k < 16 by omega,
      show 16 - 1 - k - (l % 8 + 8) < 16 by omega]
  · rcases Nat.lt_or_ge (l % 8 + k) 16 with h2 | h2
    · rw [show (l + k) / 8 = l / 8 + 1 from by omega,
        show (l + k) % 8 = l % 8 + k - 8 from by omega]
      simp [show 16 - 1 - k < l % 8 + 8 by omega, show ¬ 16 - 1 - k < l % 8 by omega,
        show 16 - 1 - k - l % 8 < 8 by omega,
        show ¬ 8 - l % 8 + (16 - 1 - k) < 8 by omega, Nat.add_assoc,
        show 7 - (16 - 1 - k - l % 8) = l % 8 + k - 8 by omega, show 16 - 1 - k < 16 by omega,
        show 16 - 1 - k - l % 8 < 16 by omega]
    · rw [show (l + k) / 8 = l / 8 + 2 from by omega,
        show (l + k) % 8 = l % 8 + k - 16 from by omega]
      simp [show 16 - 1 - k < l % 8 + 8 by omega, show 16 - 1 - k < l % 8 by omega,
        show 8 - l % 8 + (16 - 1 - k) < 8 by omega, Nat.add_assoc,
        show 7 - (8 - l % 8 + (16 - 1 - k)) = l % 8 + k - 16 by omega,
        show 8 - l % 8 + (16 - 1 - k) < 16 by omega]

/-- The table lookup of `huffdecbyte` on a window of eleven bits. -/
def HuffTables.lookup (ht : HuffTables) (win : List Bool) : Byte × Nat :=
  ((ht.dec (BitVec.ofBoolListBE win).toNat).value,
    (ht.dec (BitVec.ofBoolListBE win).toNat).len.toNat)

/-- The shifted index is the window of the next eleven bits, as a number. -/
theorem huffDecIndex_toNat (mem : Nat → Byte) (inbuf l : Nat) :
    (huffDecIndex mem inbuf l >>> (16 - 11)).toNat
      = (BitVec.ofBoolListBE (PrefixCode.window (bitAt mem inbuf) 11 l)).toNat := by
  apply Nat.eq_of_testBit_eq
  intro i
  rw [BitVec.testBit_toNat, BitVec.testBit_toNat, BitVec.getLsbD_ushiftRight,
    BitVec.getLsbD_ofBoolListBE, PrefixCode.window_length]
  by_cases hi : i < 11
  · have h := huffDecIndex_getMsbD mem inbuf l (10 - i) (by omega)
    rw [BitVec.getMsbD, decide_eq_true (by omega), Bool.true_and,
      show 16 - 1 - (10 - i) = 16 - 11 + i from by omega] at h
    rw [h, PrefixCode.window]
    simp [hi, show 11 - 1 - i < 11 by omega]
  · rw [BitVec.getLsbD_of_ge _ _ (by omega)]
    simp [hi]

/-- With sound tables the lookup resolves the code. -/
theorem HuffTables.Sound.resolves {ht : HuffTables} (hs : ht.Sound) :
    PrefixCode.Resolves ht.codeBits ht.lookup 11 := by
  intro b win hwin hprefix
  have hle := hs.len_le b
  have hbits : ∀ k, k < (ht.enc b).len.toNat → win.getD k false = (ht.enc b).code.getMsbD k := by
    intro k hk
    have hk' : k < (ht.codeBits b).length := by
      rw [HuffTables.codeBits, HuffEncEntry.bits_length]
      exact hk
    obtain ⟨rest, rfl⟩ := hprefix
    rw [List.getD_eq_getElem?_getD, List.getElem?_append_left hk', List.getElem?_eq_getElem hk']
    exact HuffEncEntry.bits_getElem _ _ _
  -- the top bits of the window are those of the code
  have hdec := hs.dec b (BitVec.ofBoolListBE win).toNat (by
    apply Nat.eq_of_testBit_eq
    intro i
    rw [Nat.testBit_div_two_pow, Nat.testBit_div_two_pow, BitVec.testBit_toNat,
      BitVec.testBit_toNat, BitVec.getLsbD_ofBoolListBE, hwin]
    by_cases hi : i < (ht.enc b).len.toNat
    · rw [show 11 - 1 - (i + (11 - (ht.enc b).len.toNat)) = (ht.enc b).len.toNat - 1 - i from by
        omega, hbits _ (by omega), BitVec.getMsbD, decide_eq_true (by omega), decide_eq_true (by
        omega), show 16 - 1 - ((ht.enc b).len.toNat - 1 - i) = i + (16 - (ht.enc b).len.toNat) from
        by omega]
      simp
    · rw [decide_eq_false (by omega), BitVec.getLsbD_of_ge _ _ (by omega), Bool.false_and])
  rw [HuffTables.lookup, hdec, HuffTables.codeBits, HuffEncEntry.bits_length]

/-! ## The whole packet -/

/-- `buf[dst]`, `buf[dst + 1]`, … set to the bytes of a list. -/
def OutBuf.storeAll (out : OutBuf) (dst : Nat) : List Byte → OutBuf
  | [] => out
  | b :: bs => (out.store dst b).storeAll (dst + 1) bs

theorem OutBuf.storeAll_stores (out : OutBuf) (dst : Nat) (bs : List Byte) :
    (out.storeAll dst bs).stores = out.stores ++ (List.range bs.length).map (dst + ·) := by
  induction bs generalizing out dst with
  | nil => simp [OutBuf.storeAll]
  | cons b bs ih =>
    rw [OutBuf.storeAll, ih, OutBuf.store_stores, List.length_cons, List.range_succ_eq_map,
      List.map_cons, List.map_map, List.append_assoc]
    simp [Function.comp_def, Nat.add_comm, Nat.add_left_comm]

theorem OutBuf.storeAll_mem_of_lt (out : OutBuf) (dst : Nat) (bs : List Byte) {j : Nat}
    (h : j < dst) : (out.storeAll dst bs).mem j = out.mem j := by
  induction bs generalizing out dst with
  | nil => rfl
  | cons b bs ih =>
    rw [OutBuf.storeAll, ih _ _ (by omega), OutBuf.store_mem, Function.update_of_ne (by omega)]

theorem OutBuf.storeAll_mem (out : OutBuf) (dst : Nat) (bs : List Byte) (i : Nat)
    (h : i < bs.length) : (out.storeAll dst bs).mem (dst + i) = bs[i] := by
  induction bs generalizing out dst i with
  | nil => exact absurd h (Nat.not_lt_zero i)
  | cons b bs ih =>
    rw [OutBuf.storeAll]
    cases i with
    | zero =>
      show ((out.store dst b).storeAll (dst + 1) bs).mem dst = b
      rw [OutBuf.storeAll_mem_of_lt _ _ _ (Nat.lt_add_one dst), OutBuf.store_mem,
        Function.update_self]
    | succ i =>
      rw [show dst + (i + 1) = dst + 1 + i from by omega]
      exact ih _ _ i (by simpa using h)

/-- The loop of `Huff_DecompressPacket` is the table decoder of the stream. -/
theorem huffDecLoop_eq (ht : HuffTables) (mem : Nat → Byte) (encmsg total buffer fuel : Nat) :
    ∀ (i outlen : Nat) (out : OutBuf), outlen + 256 * fuel ≤ 2 ^ 32 →
      huffDecLoop ht mem encmsg total buffer fuel i outlen out
        = (i + (PrefixCode.decode ht.lookup 11 (bitAt mem encmsg) total fuel outlen).length,
          out.storeAll (buffer + i)
            (PrefixCode.decode ht.lookup 11 (bitAt mem encmsg) total fuel outlen)) := by
  -- over the bytes written: both sides read the same window and move as far
  induction fuel with
  | zero => exact fun _ _ _ _ => rfl
  | succ fuel ih =>
    intro i outlen out hfuel
    rw [huffDecLoop, PrefixCode.decode]
    by_cases hgo : outlen < total
    -- the table is looked up with the same window
    · have hbyte : huffDecByte ht mem encmsg outlen
          = ((ht.lookup (PrefixCode.window (bitAt mem encmsg) 11 outlen)).1,
            outlen + (ht.lookup (PrefixCode.window (bitAt mem encmsg) 11 outlen)).2) := by
        have hlen := (ht.dec (huffDecIndex mem encmsg outlen >>> (16 - 11)).toNat).len.isLt
        rw [huffDecByte, HuffTables.lookup, ← huffDecIndex_toNat, Nat.mod_eq_of_lt (by omega)]
      have hnext : outlen + (ht.lookup (PrefixCode.window (bitAt mem encmsg) 11 outlen)).2
          + 256 * fuel ≤ 2 ^ 32 := by
        have hlen : (ht.lookup (PrefixCode.window (bitAt mem encmsg) 11 outlen)).2 < 256 :=
          BitVec.isLt _
        omega
      rw [if_pos hgo, if_pos hgo, hbyte, ih _ _ _ hnext, List.length_cons, OutBuf.storeAll]
      simp [Nat.add_assoc, Nat.add_comm]
    · rw [if_neg hgo, if_neg hgo]
      rfl

/-- The packet at `inbuf` decompresses to `p`, into `dbuf`. -/
def DecompressesTo (ht : HuffTables) (mem : Nat → Byte) (inbuf inbuflen : Nat) (p : List Byte) :
    Prop :=
  ∀ (dout : OutBuf) (dbuf dbuflen : Nat), max p.length inbuflen ≤ dbuflen →
    (huffDecompressPacket ht mem inbuf inbuflen dout dbuf dbuflen).1 = p.length ∧
    (∀ i (h : i < p.length),
      (huffDecompressPacket ht mem inbuf inbuflen dout dbuf dbuflen).2.mem (dbuf + i) = p[i]) ∧
    (huffDecompressPacket ht mem inbuf inbuflen dout dbuf dbuflen).2.stores
      = dout.stores ++ (List.range p.length).map (dbuf + ·)

/-- Decompression of either form of a compressed packet, copied into any memory. -/
theorem Compressed.decompresses {ht : HuffTables} (hs : ht.Sound) {p : List Byte}
    {omem : Nat → Byte} {outbuf k : Nat} (hc : Compressed ht p omem outbuf k)
    (hn : p.length ≤ maxMsglen) {mem : Nat → Byte} {inbuf : Nat}
    (hmem : ∀ i, i < k → mem (inbuf + i) = omem (outbuf + i)) :
    DecompressesTo ht mem inbuf k p := by
  have hmax : maxMsglen = 1450 := rfl
  intro dout dbuf dbuflen hfit
  cases hc with
  | coded hshort hheader hbits =>
    obtain ⟨bits, hbitsdef⟩ : ∃ bits, bits = PrefixCode.encode ht.codeBits p := ⟨_, rfl⟩
    rw [← hbitsdef] at hshort hheader hbits hmem hfit ⊢
    have hhead : (mem inbuf).toNat = 8 - bits.length % 8 := by
      have h0 := hmem 0 (by omega)
      rw [Nat.add_zero, Nat.add_zero] at h0
      rw [h0, hheader, BitVec.toNat_ofNat, Nat.mod_eq_of_lt (by omega)]
    have hne : mem inbuf ≠ 0x80#8 := by
      intro h
      rw [h] at hhead
      have : (0x80#8).toNat = 128 := rfl
      omega
    -- the header says how many bits the last byte is padded with
    have htotal : ((bits.length / 8 + 2 + 2 ^ 32 - 1) % 2 ^ 32 * 8 % 2 ^ 32 + 2 ^ 32
        - (mem inbuf).toNat) % 2 ^ 32 = bits.length := by
      rw [hhead]
      omega
    have hstream : ∀ i (h : i < bits.length), bitAt mem (inbuf + 1) i = bits[i] := by
      intro i hi
      rw [← hbits i hi, bitAt, bitAt]
      have hbyte := hmem (1 + i / 8) (by omega)
      rw [← Nat.add_assoc, ← Nat.add_assoc] at hbyte
      rw [hbyte]
    have hdec : PrefixCode.decode ht.lookup 11 (bitAt mem (inbuf + 1)) bits.length maxMsglen 0
        = p := by
      rw [hbitsdef] at hstream ⊢
      refine PrefixCode.decode_encode hs.resolves ?_ ?_ _ p hstream maxMsglen hn
      · intro a
        rw [HuffTables.codeBits, HuffEncEntry.bits_length]
        exact hs.len_pos a
      · intro a
        rw [HuffTables.codeBits, HuffEncEntry.bits_length]
        exact hs.len_le a
    have hrun : huffDecompressPacket ht mem inbuf (bits.length / 8 + 2) dout dbuf dbuflen
        = (p.length, dout.storeAll dbuf p) := by
      rw [huffDecompressPacket, if_neg (by omega), if_neg hne]
      simp only [Nat.add_sub_cancel]
      rw [htotal, huffDecLoop_eq _ _ _ _ _ _ _ _ _ (by omega), hdec, Nat.zero_add, Nat.add_zero]
    rw [hrun]
    exact ⟨rfl, fun i hi => dout.storeAll_mem dbuf p i hi, dout.storeAll_stores dbuf p⟩
  | stored hheader hbytes =>
    -- no code has this header
    have hhead : mem inbuf = 0x80#8 := by
      have h0 := hmem 0 (by omega)
      rw [Nat.add_zero, Nat.add_zero] at h0
      rw [h0, hheader]
    have hrun : huffDecompressPacket ht mem inbuf (p.length + 1) dout dbuf dbuflen
        = (p.length, dout.memcpy dbuf (fun i => mem (inbuf + 1 + i)) p.length) := by
      rw [huffDecompressPacket, if_neg (by omega), if_pos hhead]
      simp only [show (p.length + 1 + 2 ^ 32 - 1) % 2 ^ 32 = p.length by omega]
    rw [hrun]
    refine ⟨rfl, ?_, dout.memcpy_stores ..⟩
    intro i hi
    rw [OutBuf.memcpy_mem, if_pos (by omega), Nat.add_sub_cancel_left, ← hbytes i hi,
      Nat.add_assoc, hmem _ (by omega), Nat.add_assoc]

theorem huffInit_sound {tablecrc : BitVec 32} {ht : HuffTables}
    (h : huffInit tablecrc = some ht) : ht.Sound := by
  rw [huffInit] at h
  split at h
  · obtain rfl := Option.some.inj h
    exact hufftablesQ3_sound
  · exact nomatch h

/-- The compressor's result length, and the round trip, for any tables that are sound. -/
theorem huffCompressPacket_decompresses {ht : HuffTables} (hs : ht.Sound) (p : List Byte)
    (out : OutBuf) (outbuf outbuflen : Nat) (hn : p.length ≤ maxMsglen)
    (hfit : p.length < outbuflen) :
    1 ≤ (huffCompressPacket ht p out outbuf outbuflen).1 ∧
    (huffCompressPacket ht p out outbuf outbuflen).1 ≤ p.length + 1 ∧
    ∀ mem inbuf, (∀ i, i < (huffCompressPacket ht p out outbuf outbuflen).1 →
        mem (inbuf + i) = (huffCompressPacket ht p out outbuf outbuflen).2.mem (outbuf + i)) →
      DecompressesTo ht mem inbuf (huffCompressPacket ht p out outbuf outbuflen).1 p := by
  have hmax : maxMsglen = 1450 := rfl
  have hc := (huffCompressPacket_spec hs p out outbuf outbuflen (by omega) hfit).1
  refine ⟨?_, ?_, fun mem inbuf hmem => hc.decompresses hs hn hmem⟩
  · generalize (huffCompressPacket ht p out outbuf outbuflen).1 = k at hc
    cases hc <;> omega
  · generalize (huffCompressPacket ht p out outbuf outbuflen).1 = k at hc
    cases hc <;> omega

/-- **Round trip.**  With the tables of `Huff_Init`, compressing `p` yields between 1 and
    `p.length + 1` bytes, and decompressing these bytes, wherever they are copied to and
    whatever follows them there, returns `p.length` and stores exactly `p`. -/
theorem huffDecompressPacket_huffCompressPacket (tablecrc : BitVec 32) (ht : HuffTables)
    (hinit : huffInit tablecrc = some ht) (p : List Byte) (hn : p.length ≤ maxMsglen)
    (out : OutBuf) (outbuf outbuflen : Nat) (hfit : p.length < outbuflen) :
    1 ≤ (huffCompressPacket ht p out outbuf outbuflen).1 ∧
    (huffCompressPacket ht p out outbuf outbuflen).1 ≤ p.length + 1 ∧
    ∀ mem inbuf, (∀ i, i < (huffCompressPacket ht p out outbuf outbuflen).1 →
        mem (inbuf + i) = (huffCompressPacket ht p out outbuf outbuflen).2.mem (outbuf + i)) →
      ∀ (dout : OutBuf) (dbuf dbuflen : Nat),
        max p.length (huffCompressPacket ht p out outbuf outbuflen).1 ≤ dbuflen →
        let d := huffDecompressPacket ht mem inbuf (huffCompressPacket ht p out outbuf outbuflen).1
          dout dbuf dbuflen
        d.1 = p.length ∧
        (∀ i (h : i < p.length), d.2.mem (dbuf + i) = p[i]) ∧
        d.2.stores = dout.stores ++ (List.range p.length).map (dbuf + ·) :=
  huffCompressPacket_decompresses (huffInit_sound hinit) p out outbuf outbuflen hn hfit

/-- The round trip of the payload `"new"` in a buffer of 1490 bytes. -/
theorem huffDecompressPacket_huffCompressPacket_new :
    1 ≤ (huffCompressPacket hufftablesQ3 [0x6e, 0x65, 0x77] ⟨fun _ => 0, []⟩ 0 1490).1 ∧
    (huffCompressPacket hufftablesQ3 [0x6e, 0x65, 0x77] ⟨fun _ => 0, []⟩ 0 1490).1 ≤ 4 :=
  have h := huffDecompressPacket_huffCompressPacket 0x286f2e8d#32 hufftablesQ3 (by rfl)
    [0x6e, 0x65, 0x77] (by decide) ⟨fun _ => 0, []⟩ 0 1490 (by decide)
  ⟨h.1, h.2.1⟩

end QwNet
