/-
  QwNet.Huffman.Decompressor

  `Huff_DecompressPacket` on any input, hostile ones included.

  The number of bits to decode is an unsigned difference of the payload's bits and the
  header byte, and the output is bounded by `MAX_MSGLEN` alone.
-/
import QwNet.Huffman.RoundTrip

namespace QwNet

open BitStream

/-- Where the `k`-th code of the payload at `encmsg` starts. -/
def HuffTables.codeStart (ht : HuffTables) (mem : Nat → Byte) (encmsg k : Nat) : Nat :=
  PrefixCode.start ht.lookup 11 (bitAt mem encmsg) k

/-- What the `k`-th code of the payload at `encmsg` stands for. -/
def HuffTables.codeByte (ht : HuffTables) (mem : Nat → Byte) (encmsg k : Nat) : Byte :=
  PrefixCode.symbol ht.lookup 11 (bitAt mem encmsg) k

/-- Byte `i` of the output comes from the packet of `n` bytes at `inbuf`: it is copied from it, or
    decoded from a code that starts in it. -/
def FromPacket (ht : HuffTables) (mem : Nat → Byte) (inbuf n i : Nat) (b : Byte) : Prop :=
  if mem inbuf = 0x80#8 then i < n - 1 ∧ b = mem (inbuf + 1 + i)
  else ht.codeStart mem (inbuf + 1) i < 8 * (n - 1) ∧ b = ht.codeByte mem (inbuf + 1) i

/-- The result `r` is `text`, which fits into the output buffer and comes from the packet. -/
structure Unpacked (ht : HuffTables) (mem : Nat → Byte) (inbuf n : Nat) (out : OutBuf)
    (outbuf outbuflen : Nat) (r : Nat × OutBuf) (text : List Byte) : Prop where
  length : r.1 = text.length
  stores : r.2.stores = out.stores ++ (List.range text.length).map (outbuf + ·)
  content : ∀ i (h : i < text.length), r.2.mem (outbuf + i) = text[i]
  fits : text.length ≤ outbuflen
  origin : ∀ i (h : i < text.length), FromPacket ht mem inbuf n i text[i]
  /-- A pad count larger than the payload yields no output. -/
  padded : mem inbuf ≠ 0x80#8 → 8 * (n - 1) < (mem inbuf).toNat → text = []

/-- `inbuflen` when the loop starts. -/
def bitCount (header : Byte) (n : Nat) : Nat :=
  ((n + 2 ^ 32 - 1) % 2 ^ 32 * 8 % 2 ^ 32 + 2 ^ 32 - header.toNat) % 2 ^ 32

/-- The coded form: the codes that start in the first `bitCount` bits, at most `MAX_MSGLEN` of
    them. -/
theorem huffDecompressPacket_coded (ht : HuffTables) {mem : Nat → Byte} {inbuf n : Nat}
    (out : OutBuf) (outbuf : Nat) {outbuflen : Nat} (hfit : n ≤ outbuflen)
    (hheader : mem inbuf ≠ 0x80#8) : ∃ count ≤ maxMsglen,
      huffDecompressPacket ht mem inbuf n out outbuf outbuflen
        = (count, out.storeAll outbuf ((List.range count).map (ht.codeByte mem (inbuf + 1)))) ∧
      (∀ k < count, ht.codeStart mem (inbuf + 1) k < bitCount (mem inbuf) n) ∧
      (count = maxMsglen ∨ bitCount (mem inbuf) n ≤ ht.codeStart mem (inbuf + 1) count) := by
  obtain ⟨count, hcount, hmap, hall, hstop⟩ := PrefixCode.decode_eq_map ht.lookup 11
    (bitAt mem (inbuf + 1)) (bitCount (mem inbuf) n) maxMsglen 0
  simp only [Nat.zero_add] at hmap hall hstop
  refine ⟨count, hcount, ?_, hall, hstop⟩
  rw [huffDecompressPacket, if_neg (Nat.not_lt.mpr hfit), if_neg hheader]
  simp only [Nat.add_sub_cancel]
  rw [huffDecLoop_eq _ _ _ _ _ _ _ _ _ (by decide)]
  have hstart : PrefixCode.start ht.lookup 11 (bitAt mem (inbuf + 1)) 0 = 0 := rfl
  rw [hstart] at hmap
  rw [Nat.add_zero, Nat.zero_add, show ((n + 2 ^ 32 - 1) % 2 ^ 32 * 8 % 2 ^ 32 + 2 ^ 32
    - (mem inbuf).toNat) % 2 ^ 32 = bitCount (mem inbuf) n from rfl, hmap, List.length_map,
    List.length_range]
  rfl

/-- The stored form is always a copy. -/
theorem unpacked_stored {ht : HuffTables} {mem : Nat → Byte} {inbuf n : Nat} (out : OutBuf)
    (outbuf : Nat) {outbuflen : Nat} (hn : 1 ≤ n) (hlt : n < 2 ^ 32) (hfit : n ≤ outbuflen)
    (hheader : mem inbuf = 0x80#8) : ∃ text, Unpacked ht mem inbuf n out outbuf outbuflen
      (huffDecompressPacket ht mem inbuf n out outbuf outbuflen) text := by
  have hcount : (n + 2 ^ 32 - 1) % 2 ^ 32 = n - 1 := by omega
  have hrun : huffDecompressPacket ht mem inbuf n out outbuf outbuflen
      = (n - 1, out.memcpy outbuf (fun i => mem (inbuf + 1 + i)) (n - 1)) := by
    rw [huffDecompressPacket, if_neg (Nat.not_lt.mpr hfit), if_pos hheader]
    simp only [hcount]
  have hlength : ((List.range (n - 1)).map fun i => mem (inbuf + 1 + i)).length = n - 1 := by
    rw [List.length_map, List.length_range]
  refine ⟨(List.range (n - 1)).map fun i => mem (inbuf + 1 + i), ?_⟩
  rw [hrun]
  refine ⟨hlength.symm, ?_, fun i hi => ?_, by omega, fun i hi => ?_, fun hne => absurd hheader hne⟩
  · rw [hlength]
    exact out.memcpy_stores ..
  · rw [hlength] at hi
    rw [OutBuf.memcpy_mem, if_pos (by omega), Nat.add_sub_cancel_left]
    simp
  · rw [hlength] at hi
    rw [FromPacket, if_pos hheader]
    exact ⟨hi, by simp⟩

/-- No code of the first `MAX_MSGLEN` starts far into the payload. -/
theorem codeStart_lt (ht : HuffTables) (mem : Nat → Byte) (encmsg : Nat) {k : Nat}
    (hk : k ≤ maxMsglen) : ht.codeStart mem encmsg k < 2 ^ 20 := by
  have hlen : ∀ win, (ht.lookup win).2 ≤ 255 := fun win => Nat.le_of_lt_succ (BitVec.isLt _)
  have hle : ht.codeStart mem encmsg k ≤ k * 255 := PrefixCode.start_le _ hlen k
  have hmax : maxMsglen = 1450 := rfl
  exact Nat.lt_of_le_of_lt hle (by omega)

/-- A payload of less than `2 ^ 29` bytes has its bits counted as they are. -/
theorem bitCount_eq {header : Byte} {n : Nat} (hn : 1 ≤ n) (hlt : n ≤ 2 ^ 29)
    (hle : header.toNat ≤ 8 * (n - 1)) : bitCount header n = 8 * (n - 1) - header.toNat := by
  unfold bitCount
  omega

/-- With a larger pad count something is put out: the difference wraps, and is not zero. -/
theorem Unpacked.pad_le {ht : HuffTables} {mem : Nat → Byte} {inbuf n : Nat} {out : OutBuf}
    {outbuf outbuflen : Nat} {text : List Byte} (htext : Unpacked ht mem inbuf n out outbuf outbuflen
      (huffDecompressPacket ht mem inbuf n out outbuf outbuflen) text)
    (hlt : n < 2 ^ 32) (hfit : n ≤ outbuflen) (hheader : mem inbuf ≠ 0x80#8) :
    (mem inbuf).toNat ≤ 8 * (n - 1) := by
  by_contra hlarge
  have hpad : (mem inbuf).toNat < 256 := (mem inbuf).isLt
  obtain ⟨count, -, hrun, -, hstop⟩ := huffDecompressPacket_coded ht out outbuf hfit hheader
  have hlength := htext.length
  rw [hrun, htext.padded hheader (Nat.not_le.mp hlarge)] at hlength
  obtain rfl : count = 0 := hlength
  have hzero : bitCount (mem inbuf) n = 0 := Nat.le_zero.mp (hstop.resolve_left (by decide))
  unfold bitCount at hzero
  omega

/-- The decompressor invents nothing and stays in the output buffer exactly when the packet is
    stored, or its pad count is not larger than the payload and the codes in front of the padding
    are not more than the output buffer has room for. -/
theorem huffDecompressPacket_unpacked_iff (ht : HuffTables) (mem : Nat → Byte) (inbuf n : Nat)
    (out : OutBuf) (outbuf outbuflen : Nat) (hn : 1 ≤ n) (hlt : n < 2 ^ 32) (hfit : n ≤ outbuflen) :
    (∃ text, Unpacked ht mem inbuf n out outbuf outbuflen
      (huffDecompressPacket ht mem inbuf n out outbuf outbuflen) text) ↔
    mem inbuf = 0x80#8 ∨ (mem inbuf).toNat ≤ 8 * (n - 1) ∧ (maxMsglen ≤ outbuflen ∨
      8 * (n - 1) - (mem inbuf).toNat ≤ ht.codeStart mem (inbuf + 1) outbuflen) := by
  by_cases hheader : mem inbuf = 0x80#8
  · exact iff_of_true (unpacked_stored out outbuf hn hlt hfit hheader) (.inl hheader)
  rw [or_iff_right hheader]
  have hmax : maxMsglen = 1450 := rfl
  have hpad : (mem inbuf).toNat < 256 := (mem inbuf).isLt
  obtain ⟨count, hcount, hrun, hall, hstop⟩ :=
    huffDecompressPacket_coded ht out outbuf hfit hheader
  constructor
  · rintro ⟨text, htext⟩
    -- the loop stopped at the end of the payload or of the output
    have hle := htext.pad_le hlt hfit hheader
    rw [hrun] at htext
    have hsame : text.length = count := htext.length.symm
    have hfits := htext.fits
    refine ⟨hle, ?_⟩
    by_cases hsmall : n ≤ 2 ^ 29
    · rcases hstop with hstop | hstop
      · exact .inl (by omega)
      · rw [bitCount_eq hn hsmall hle] at hstop
        exact .inr (Nat.le_trans hstop (PrefixCode.start_mono _ _ _ (by omega)))
    · exact .inl (by omega)
  · rintro ⟨hle, hroom⟩
    have hlength : ((List.range count).map (ht.codeByte mem (inbuf + 1))).length = count := by
      rw [List.length_map, List.length_range]
    rw [hrun]
    refine ⟨(List.range count).map (ht.codeByte mem (inbuf + 1)), hlength.symm,
      out.storeAll_stores outbuf _, out.storeAll_mem outbuf _, ?_, fun i hi => ?_,
      fun _ hlarge => absurd hle (Nat.not_le.mpr hlarge)⟩
    · rw [hlength]
      by_contra hover
      -- the code behind the last that fits would start in front of the padding
      have hstart := hall outbuflen (Nat.not_le.mp hover)
      rw [bitCount_eq hn (by omega) hle] at hstart
      omega
    · rw [hlength] at hi
      rw [FromPacket, if_neg hheader]
      refine ⟨?_, by simp⟩
      have hstart := hall i hi
      by_cases hsmall : n ≤ 2 ^ 29
      · rw [bitCount_eq hn hsmall hle] at hstart
        omega
      · have hlt' := codeStart_lt ht mem (inbuf + 1) (Nat.le_trans (Nat.le_of_lt hi) hcount)
        omega

/-- The packet of three zero bytes, in the client's buffer. -/
theorem huffDecompressPacket_unpacked_iff_zeros : ∃ text, Unpacked hufftablesQ3
    (fun i => [2, 0x2a].getD i 0) 0 2 ⟨fun _ => 0, []⟩ 0 1491
    (huffDecompressPacket hufftablesQ3 (fun i => [2, 0x2a].getD i 0) 0 2 ⟨fun _ => 0, []⟩ 0 1491)
    text :=
  (huffDecompressPacket_unpacked_iff hufftablesQ3 _ 0 2 _ 0 1491 (by decide) (by decide)
    (by decide)).mpr (.inr ⟨by decide, .inl (by decide)⟩)

/-- A pad count of 255 in front of a payload of one byte. -/
theorem not_huffDecompressPacket_unpacked : ¬∀ (mem : Nat → Byte) (inbuf n : Nat) (out : OutBuf)
    (outbuf outbuflen : Nat), 1 ≤ n → n < 2 ^ 32 → n ≤ outbuflen →
    ∃ text, Unpacked hufftablesQ3 mem inbuf n out outbuf outbuflen
      (huffDecompressPacket hufftablesQ3 mem inbuf n out outbuf outbuflen) text := by
  intro hall
  obtain ⟨text, htext⟩ := hall (fun i => [0xff, 0].getD i 0) 0 2 ⟨fun _ => 0, []⟩ 0 1491 (by decide)
    (by decide) (by decide)
  have hle := htext.pad_le (by decide) (by decide) (by decide)
  exact absurd hle (by decide)

end QwNet
