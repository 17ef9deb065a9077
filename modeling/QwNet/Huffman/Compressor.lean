/-
  QwNet.Huffman.Compressor

  What `Huff_CompressPacket` puts out, and how far it stores.

  The stream is the one the tables document, bit by bit.  `huffencbyte` clears the byte
  after each one it has written to, so the last index of a symbol is that of the byte
  in which its code ends, rounded up; the test between two symbols does not see it.
-/
import QwNet.Huffman.RoundTrip

namespace QwNet

open BitStream

/-! ## The documented stream -/

/-- The codes of `p`, one after the other. -/
def HuffTables.stream (ht : HuffTables) (p : List Byte) : List Bool :=
  PrefixCode.encode ht.codeBits p

/-- The compressor emits the codes and their padding where they are shorter than the payload, and
    the payload itself otherwise. -/
theorem huffCompressPacket_stream (tablecrc : BitVec 32) (ht : HuffTables)
    (hinit : huffInit tablecrc = some ht) (p : List Byte) (hn : 8 * p.length + 11 < 2 ^ 32)
    (out : OutBuf) (outbuf outbuflen : Nat) (hfit : p.length < outbuflen) :
    let bits := ht.stream p
    let r := huffCompressPacket ht p out outbuf outbuflen
    if bits.length / 8 < p.length then
      r.1 = 1 + (bits.length / 8 + 1) ∧
      r.2.mem outbuf = BitVec.ofNat 8 (8 - bits.length % 8) ∧
      ∀ i < 8 * (bits.length / 8 + 1), bitAt r.2.mem (outbuf + 1) i = bits.getD i false
    else
      r.1 = 1 + p.length ∧
      r.2.mem outbuf = 0x80#8 ∧ ∀ i (h : i < p.length), r.2.mem (outbuf + 1 + i) = p[i] := by
  intro bits r
  obtain ⟨hcoded, hstored, -⟩ :=
    huffCompressPacket_forms (huffInit_sound hinit) p out outbuf outbuflen hn hfit
  by_cases hshort : bits.length / 8 < p.length
  · obtain ⟨hlen, hheader, hpad⟩ := hcoded hshort
    have hlen' : r.1 = bits.length / 8 + 2 := hlen
    rw [if_pos hshort]
    -- a bit of the stream, or of the padding behind it
    refine ⟨hlen'.trans (by omega), hheader, fun i hi => ?_⟩
    rw [List.getD_eq_getElem?_getD]
    by_cases hin : i < bits.length
    · rw [List.getElem?_eq_getElem hin]
      exact hpad.holds i hin
    · rw [List.getElem?_eq_none (Nat.not_lt.mp hin)]
      exact hpad.pad i (Nat.not_lt.mp hin) hi
  · obtain ⟨hlen, hheader, hbytes⟩ := hstored (Nat.not_lt.mp hshort)
    rw [if_neg hshort]
    exact ⟨hlen.trans (Nat.add_comm _ _), hheader, hbytes⟩

/-- Three bytes whose code is `01`. -/
theorem huffCompressPacket_stream_zeros :
    let r := huffCompressPacket hufftablesQ3 [0, 0, 0] ⟨fun _ => 0, []⟩ 0 7
    r.1 = 2 ∧ r.2.mem 0 = 2#8 ∧
      ∀ i < 8, bitAt r.2.mem 1 i = [false, true, false, true, false, true].getD i false := by
  intro r
  have hstream := huffCompressPacket_stream 0x286f2e8d#32 hufftablesQ3 rfl [0, 0, 0] (by decide)
    ⟨fun _ => 0, []⟩ 0 7 (by decide)
  have hbits : hufftablesQ3.stream [0, 0, 0] = [false, true, false, true, false, true] := by
    decide +kernel
  rw [hbits] at hstream
  exact hstream

/-! ## Where it stores -/

/-- Going from `out` to `out'`, indices from `lo` to `hi` were stored to, `hi` among them. -/
structure OutBuf.StoresUpTo (out out' : OutBuf) (lo hi : Nat) : Prop where
  stores : ∃ new, out'.stores = out.stores ++ new ∧ (∀ i ∈ new, lo ≤ i ∧ i ≤ hi) ∧ hi ∈ new

namespace OutBuf

variable {out out₁ out₂ out₃ : OutBuf} {lo hi lim : Nat}

theorem StoresWithin.storesIn_iff {lo' : Nat} (h : out₁.StoresWithin out₂ lo hi) (hlo : lo' ≤ lo) :
    out₁.StoresIn out₂ lo' lim ↔ out₁.StoresIn out₂ lo lim := by
  obtain ⟨new, heq, hall⟩ := h.stores
  constructor
  · rintro ⟨new', heq', hall'⟩
    obtain rfl : new = new' := List.append_cancel_left (heq.symm.trans heq')
    exact ⟨new, heq, fun i hi => ⟨(hall i hi).1, (hall' i hi).2⟩⟩
  · rintro ⟨new', heq', hall'⟩
    exact ⟨new', heq', fun i hi => ⟨Nat.le_trans hlo (hall' i hi).1, (hall' i hi).2⟩⟩

theorem StoresUpTo.after (h : out₂.StoresUpTo out₃ lo hi)
    (hbefore : ∃ new, out₂.stores = out₁.stores ++ new ∧ ∀ i ∈ new, lo ≤ i ∧ i ≤ hi) :
    out₁.StoresUpTo out₃ lo hi := by
  obtain ⟨new₁, heq₁, hall₁⟩ := hbefore
  obtain ⟨new₂, heq₂, hall₂, hmem⟩ := h.stores
  refine ⟨new₁ ++ new₂, ?_, List.forall_mem_append.mpr ⟨hall₁, hall₂⟩,
    List.mem_append_right _ hmem⟩
  rw [heq₂, heq₁, List.append_assoc]

theorem StoresUpTo.storesIn_iff (h : out₁.StoresUpTo out₂ lo hi) :
    out₁.StoresIn out₂ lo lim ↔ hi < lim := by
  obtain ⟨new, heq, hall, hmem⟩ := h.stores
  constructor
  · rintro ⟨new', heq', hall'⟩
    obtain rfl : new = new' := List.append_cancel_left (heq.symm.trans heq')
    exact (hall' hi hmem).2
  · intro hlim
    exact ⟨new, heq, fun i hi => ⟨(hall i hi).1, Nat.lt_of_le_of_lt (hall i hi).2 hlim⟩⟩

theorem storesUpTo_store (i : Nat) (v : Byte) (hlo : lo ≤ i) : out.StoresUpTo (out.store i v) lo i :=
  ⟨[i], rfl, List.forall_mem_singleton.mpr ⟨hlo, Nat.le_refl i⟩, List.mem_singleton.mpr rfl⟩

end OutBuf

/-- The loop of `huffencbyte` clears one byte more than the code takes. -/
theorem huffEncBits_storesUpTo {base : Nat} (fuel : Nat) :
    ∀ (code : BitVec 16) (size o l : Nat) (out : OutBuf), o = base + l / 8 → 0 < size →
      size ≤ fuel → l + size < 2 ^ 32 →
      out.StoresUpTo (huffEncBits fuel code size (8 - l % 8) o l out).2 base
        (base + (l + size + 7) / 8) := by
  induction fuel with
  | zero =>
    intro code size o l out _ hpos hsize _
    exact absurd hsize (Nat.not_le.mpr hpos)
  | succ fuel ih =>
    intro code size o l out ho hpos hsize hlt
    rw [huffEncBits, if_neg (Nat.ne_of_gt hpos)]
    obtain ⟨n, hn⟩ : ∃ n, n = if size < 8 - l % 8 then size else 8 - l % 8 := ⟨_, rfl⟩
    have hn_size : n ≤ size := by split at hn <;> omega
    simp only [← hn]
    rw [Nat.mod_eq_of_lt (by omega : l + n < 2 ^ 32)]
    obtain ⟨out', hout'⟩ : ∃ out', out' = (out.store o
      (out.mem o ||| bitswap (code >>> (16 - (8 - l % 8))).toNat)).store (o + 1) 0 := ⟨_, rfl⟩
    rw [← hout']
    have hpass : out.StoresUpTo out' base (o + 1) := by
      rw [hout']
      exact (OutBuf.storesUpTo_store _ _ (by omega)).after
        (OutBuf.storesWithin_store _ _ (by omega) (Nat.le_succ o)).stores
    by_cases hlast : size ≤ 8 - l % 8
    · -- the code ends inside this byte, or with it
      have hnsize : n = size := by split at hn <;> omega
      have hdone : huffEncBits fuel (code <<< n) (size - n) 8 (o + 1) (l + n) out'
          = (l + n, out') := by
        rw [hnsize, Nat.sub_self]
        cases fuel <;> simp [huffEncBits]
      rw [hdone, show base + (l + size + 7) / 8 = o + 1 by omega]
      exact hpass
    · -- the byte is full, and the next one starts empty
      have hnl : n = 8 - l % 8 := by rw [hn, if_neg (by omega)]
      have hrec := ih (code <<< n) (size - n) (o + 1) (l + n) out' (by omega) (by omega) (by omega)
        (by omega)
      rw [show 8 - (l + n) % 8 = 8 from by omega, show l + n + (size - n) = l + size from by omega]
        at hrec
      obtain ⟨new, heq, hall, -⟩ := hpass.stores
      refine hrec.after ⟨new, heq, fun i hi => ?_⟩
      have hi' := hall i hi
      omega

/-- So does `huffencbyte`. -/
theorem huffEncByte_storesUpTo {ht : HuffTables} (hs : ht.Sound) (base l : Nat) (b : Byte)
    (out : OutBuf) (hlt : l + 11 < 2 ^ 32) :
    out.StoresUpTo (huffEncByte ht b base l out).2 base
      (base + (l + (ht.codeBits b).length + 7) / 8) := by
  have hpos := hs.len_pos b
  have hle := hs.len_le b
  rw [HuffTables.codeBits, HuffEncEntry.bits_length]
  refine (huffEncBits_storesUpTo (ht.enc b).len.toNat (ht.enc b).code (ht.enc b).len.toNat
    (base + l / 8) l _ rfl hpos (Nat.le_refl _) (by omega)).after ?_
  -- a new byte is cleared before the loop starts
  split
  · exact ⟨[base + l / 8], rfl, List.forall_mem_singleton.mpr (by omega)⟩
  · exact ⟨[], (List.append_nil _).symm, by simp⟩

theorem stores_huffEncLoop {ht : HuffTables} (hs : ht.Sound) {n buffer : Nat}
    (hn : 8 * n + 11 < 2 ^ 32) (bs done : List Byte) (out : OutBuf)
    (hb : Between out.mem buffer (ht.stream done))
    (hpad : done ≠ [] → Padded out.mem buffer (ht.stream done)) :
    ∃ new, (huffEncLoop ht n buffer bs (ht.stream done).length out).2.stores = out.stores ++ new := by
  obtain ⟨q, rest, -, -, -, -, hbound⟩ := huffEncLoop_spec hs hn bs done out hb hpad
  obtain ⟨new, heq, -⟩ := hbound.stores
  exact ⟨new, heq⟩

/-- The loop stays below `lim` if every symbol does in front of which the codes do not fill `n`
    bytes yet. -/
theorem huffEncLoop_storesIn_iff {ht : HuffTables} (hs : ht.Sound) {n buffer lim : Nat}
    (hn : 8 * n + 11 < 2 ^ 32) (bs : List Byte) :
    ∀ (done : List Byte) (out : OutBuf), Between out.mem buffer (ht.stream done) →
      (done ≠ [] → Padded out.mem buffer (ht.stream done)) →
      (out.StoresIn (huffEncLoop ht n buffer bs (ht.stream done).length out).2 buffer lim ↔
        ∀ q b, q ++ [b] <+: bs → (ht.stream (done ++ q)).length / 8 < n →
          buffer + ((ht.stream (done ++ (q ++ [b]))).length + 7) / 8 < lim) := by
  induction bs with
  | nil =>
    intro done out _ _
    refine iff_of_true (OutBuf.storesIn_refl _ _ _) fun q b hq => ?_
    exact absurd (List.prefix_nil.mp hq) (List.append_ne_nil_of_right_ne_nil _ (List.cons_ne_nil _ _))
  | cons b bs ih =>
    intro done out hb hpad
    rw [huffEncLoop]
    have hcons : ht.stream (done ++ [b]) = ht.stream done ++ ht.codeBits b := by
      simp [HuffTables.stream]
    by_cases hgo : (ht.stream done).length / 8 < n
    · rw [if_pos hgo]
      obtain ⟨hlen, hpadded, -⟩ := huffEncByte_spec hs b out _ hb (by omega)
      have htop := huffEncByte_storesUpTo hs buffer (ht.stream done).length b out (by omega)
      have hdone : ht.stream done ++ (ht.enc b).bits = ht.stream (done ++ [b]) := hcons.symm
      rw [hdone] at hlen hpadded
      rw [← List.length_append, ← hcons] at htop
      have hrec := ih (done ++ [b]) _ hpadded.between fun _ => hpadded
      have hmore := stores_huffEncLoop hs hn bs (done ++ [b]) _ hpadded.between fun _ => hpadded
      rw [← hlen] at hrec hmore
      obtain ⟨new, heq, -, -⟩ := htop.stores
      -- the first symbol and the rest of the loop store one after the other
      rw [OutBuf.storesIn_trans_iff ⟨new, heq⟩ hmore, htop.storesIn_iff, hrec]
      constructor
      · rintro ⟨hfirst, hrest⟩ q b' hq hbefore
        cases q with
        | nil =>
          obtain rfl : b' = b := (List.cons_prefix_cons.mp hq).1
          exact hfirst
        | cons b'' q =>
          obtain ⟨rfl, hq'⟩ := List.cons_prefix_cons.mp hq
          have hassoc : ∀ xs, done ++ b'' :: xs = done ++ [b''] ++ xs := fun xs => by
            rw [List.append_assoc]
            rfl
          rw [List.cons_append, hassoc]
          rw [hassoc] at hbefore
          exact hrest q b' hq' hbefore
      · intro hall
        refine ⟨hall [] b ⟨bs, rfl⟩ (by rwa [List.append_nil]), fun q b' hq hbefore => ?_⟩
        rw [List.append_assoc] at hbefore ⊢
        exact hall (b :: q) b' (List.cons_prefix_cons.mpr ⟨rfl, hq⟩) hbefore
    · rw [if_neg hgo]
      -- the loop ends, and so it would behind any more symbols
      refine iff_of_true (OutBuf.storesIn_refl _ _ _) fun q b' _ hbefore => ?_
      have hle : (ht.stream done).length ≤ (ht.stream (done ++ q)).length := by
        rw [HuffTables.stream, HuffTables.stream, PrefixCode.encode_append, List.length_append]
        exact Nat.le_add_right _ _
      exact absurd (Nat.lt_of_le_of_lt (Nat.div_le_div_right hle) hbefore) hgo

/-- What the loop leaves is only added to by the header, or by it and the payload. -/
theorem huffCompressPacket_after (ht : HuffTables) (p : List Byte) (out : OutBuf)
    (outbuf outbuflen : Nat) (hfit : p.length < outbuflen) :
    (huffEncLoop ht p.length (outbuf + 1) p 0 out).2.StoresWithin
      (huffCompressPacket ht p out outbuf outbuflen).2 outbuf (outbuf + p.length) := by
  unfold huffCompressPacket
  simp only [not_not.mpr (show outbuflen > p.length from hfit), if_false]
  split
  · exact (OutBuf.storesWithin_memcpy _ _ (by omega) (by omega)).trans
      (OutBuf.storesWithin_store _ _ (by omega) (by omega))
  · exact OutBuf.storesWithin_store _ _ (by omega) (by omega)

/-- The symbols decide whether the compressor stays below a limit. -/
theorem huffCompressPacket_storesIn_iff {ht : HuffTables} (hs : ht.Sound) (p : List Byte)
    (hn : 8 * p.length + 11 < 2 ^ 32) (out : OutBuf) (outbuf outbuflen : Nat)
    (hfit : p.length < outbuflen) :
    out.StoresIn (huffCompressPacket ht p out outbuf outbuflen).2 outbuf (outbuf + outbuflen) ↔
      ∀ q b, q ++ [b] <+: p → (ht.stream q).length / 8 < p.length →
        1 + ((ht.stream (q ++ [b])).length + 7) / 8 < outbuflen := by
  have hempty : (ht.stream []).length = 0 := rfl
  obtain ⟨-, -, -, -, -, -, hbound⟩ := @huffEncLoop_spec ht hs p.length (outbuf + 1) hn p [] out
    (Between.nil ..) fun hne => absurd rfl hne
  rw [PrefixCode.encode_nil, List.length_nil] at hbound
  have hloop := @huffEncLoop_storesIn_iff ht hs p.length (outbuf + 1) (outbuf + outbuflen) hn p []
    out (Between.nil ..) fun hne => absurd rfl hne
  rw [hempty] at hloop
  have hafter := huffCompressPacket_after ht p out outbuf outbuflen hfit
  obtain ⟨new₁, heq₁, -⟩ := hbound.stores
  obtain ⟨new₂, heq₂, -⟩ := hafter.stores
  have hrest := hafter.storesIn (show outbuf + p.length < outbuf + outbuflen by omega)
  rw [OutBuf.storesIn_trans_iff ⟨new₁, heq₁⟩ ⟨new₂, heq₂⟩, and_iff_left hrest,
    hbound.storesIn_iff (Nat.le_succ outbuf)]
  refine hloop.trans (forall_congr' fun q => forall_congr' fun b => ?_)
  rw [List.nil_append, List.nil_append, Nat.add_assoc, Nat.add_lt_add_iff_left]

/-- A code has at most eleven bits, so four bytes more than the payload has are enough. -/
theorem HuffTables.Sound.room {ht : HuffTables} (hs : ht.Sound) {n outbuflen : Nat}
    (hroom : n + 4 ≤ outbuflen) (q : List Byte) (b : Byte) (hbefore : (ht.stream q).length / 8 < n) :
    1 + ((ht.stream (q ++ [b])).length + 7) / 8 < outbuflen := by
  have hle := hs.len_le b
  have hcode : (ht.codeBits b).length = (ht.enc b).len.toNat := HuffEncEntry.bits_length _
  have hlength : (ht.stream (q ++ [b])).length = (ht.stream q).length + (ht.codeBits b).length := by
    simp [HuffTables.stream]
  omega

theorem huffCompressPacket_inside {ht : HuffTables} (hs : ht.Sound) (p : List Byte)
    (hn : 8 * p.length + 11 < 2 ^ 32) (out : OutBuf) (outbuf outbuflen : Nat)
    (hroom : p.length + 4 ≤ outbuflen) :
    out.StoresIn (huffCompressPacket ht p out outbuf outbuflen).2 outbuf (outbuf + outbuflen) :=
  (huffCompressPacket_storesIn_iff hs p hn out outbuf outbuflen (by omega)).mpr fun q b _ =>
    hs.room hroom q b

/-- The compressor stays inside the output buffer exactly when every code up to the one that fills
    as many bytes as the payload has ends at least one byte before the end of the buffer. -/
theorem huffCompressPacket_inside_iff (tablecrc : BitVec 32) (ht : HuffTables)
    (hinit : huffInit tablecrc = some ht) (p : List Byte) (hn : 8 * p.length + 11 < 2 ^ 32)
    (out : OutBuf) (outbuf outbuflen : Nat) (hfit : p.length < outbuflen) :
    out.StoresIn (huffCompressPacket ht p out outbuf outbuflen).2 outbuf (outbuf + outbuflen) ↔
      ∀ q b, q ++ [b] <+: p → (ht.stream q).length / 8 < p.length →
        1 + ((ht.stream (q ++ [b])).length + 7) / 8 < outbuflen :=
  huffCompressPacket_storesIn_iff (huffInit_sound hinit) p hn out outbuf outbuflen hfit

/-- The payload `"new"` in a buffer of seven bytes. -/
theorem huffCompressPacket_inside_iff_new : OutBuf.StoresIn ⟨fun _ => 0, []⟩
    (huffCompressPacket hufftablesQ3 [0x6e, 0x65, 0x77] ⟨fun _ => 0, []⟩ 0 7).2 0 (0 + 7) :=
  (huffCompressPacket_inside_iff 0x286f2e8d#32 hufftablesQ3 rfl [0x6e, 0x65, 0x77] (by decide)
    ⟨fun _ => 0, []⟩ 0 7 (by decide)).mpr fun q b _ => hufftablesQ3_sound.room (by decide) q b

/-- A payload of one byte in a buffer of two: the third one is cleared. -/
theorem not_huffCompressPacket_inside : ¬∀ (p : List Byte) (out : OutBuf) (outbuf outbuflen : Nat),
    p.length < outbuflen → out.StoresIn (huffCompressPacket hufftablesQ3 p out outbuf outbuflen).2
      outbuf (outbuf + outbuflen) := by
  intro hinside
  obtain ⟨new, hnew, hall⟩ := hinside [0] ⟨fun _ => 0, []⟩ 0 2 (by decide)
  have hstores : (huffCompressPacket hufftablesQ3 [0] ⟨fun _ => 0, []⟩ 0 2).2.stores
      = [1, 1, 2, 0] := by
    decide +kernel
  rw [hstores, List.nil_append] at hnew
  have hlast := (hall 2 (hnew ▸ by decide)).2
  exact absurd hlast (Nat.lt_irrefl 2)

end QwNet
