/-
  QwNet.Channel.Datagram

  Packets, and the datagrams that they travel in.

  Both ends leave the header of a packet as it is and compress the rest, each with a
  function of its own: the client in `NetQW_Thread_SendPacket`, the server in
  `Huff_CompressPacketSizebuf`.  What they send is read by the function of the other
  one.
-/
import QwNet.Channel.Delays
import QwNet.Channel.Netchan
import QwNet.Channel.Connectionless
import QwNet.Channel.Movement
import QwNet.Huffman.Compressor
import QwNet.Huffman.Decompressor

namespace QwNet

/-! ## The functions of net_chan.c -/

/-- `Huff_CompressPacketSizebuf`: what is in the buffer afterwards.  `stack` is what was in the
    local buffer. -/
def huffCompressPacketSizebuf (ht : HuffTables) (stack : Nat → Byte) (msg : List Byte)
    (maxsize offset : Nat) : List Byte :=
  if msg.length < offset then msg
  else
    let r := huffCompressPacket ht (msg.drop offset) ⟨stack, []⟩ 0 (maxMsglen + 1)
    if maxsize < r.1 + offset then msg
    else msg.take offset ++ (List.range r.1).map r.2.mem

/-- `Huff_DecompressPacketSizebuf`; `behind` is what lies in the buffer of the message behind it. -/
def huffDecompressPacketSizebuf (ht : HuffTables) (stack behind : Nat → Byte) (msg : List Byte)
    (maxsize offset : Nat) : List Byte :=
  if maxMsglen + 1 < msg.length ∨ msg.length < offset + 1 then msg
  else
    let n := msg.length - offset
    let buf := fun i => if i < n then msg.getD (offset + i) 0 else stack i
    let data := fun i => if i < msg.length then msg.getD i 0 else behind i
    let r := huffDecompressPacket ht buf 0 n ⟨data, []⟩ offset (maxsize - offset)
    (List.range (r.1 + offset)).map r.2.mem

/-! ## What travels for a packet -/

/-- `sent` is `packet` with all behind its first `offset` bytes compressed. -/
structure Coded (ht : HuffTables) (offset : Nat) (packet sent : List Byte) : Prop where
  offset_le : offset ≤ packet.length
  length_le : packet.length ≤ maxMsglen + offset
  long : offset < sent.length
  short : sent.length ≤ packet.length + 1
  header : sent.take offset = packet.take offset
  payload : ∀ (mem : Nat → Byte) inbuf,
    (∀ i < sent.length - offset, mem (inbuf + i) = sent.getD (offset + i) 0) →
      DecompressesTo ht mem inbuf (sent.length - offset) (packet.drop offset)

/-- `sent` travels for `packet`. -/
def TravelsFor (huff : Option HuffTables) (offset : Nat) (packet sent : List Byte) : Prop :=
  match huff with
  | some ht => Coded ht offset packet sent
  | none => sent = packet

section

variable {ht : HuffTables} {offset : Nat} {packet sent : List Byte}

/-- The compressor, with the header in front of what it returns. -/
theorem coded_compress (hs : ht.Sound) (hoffset : offset ≤ packet.length)
    (hshort : packet.length ≤ maxMsglen + offset) (out : OutBuf) (outbuf : Nat) {outbuflen : Nat}
    (hfit : packet.length < outbuflen + offset) :
    let r := huffCompressPacket ht (packet.drop offset) out outbuf outbuflen
    r.1 + offset ≤ packet.length + 1 ∧
      Coded ht offset packet (packet.take offset ++
        (List.range r.1).map fun i => r.2.mem (outbuf + i)) := by
  have hrest : (packet.drop offset).length = packet.length - offset := List.length_drop
  obtain ⟨hpos, hle, hdecompresses⟩ := huffCompressPacket_decompresses hs (packet.drop offset) out
    outbuf outbuflen (by omega) (by omega)
  generalize huffCompressPacket ht (packet.drop offset) out outbuf outbuflen = r
    at hpos hle hdecompresses
  have htake : (packet.take offset).length = offset := by
    rw [List.length_take, Nat.min_eq_left hoffset]
  have hlength : (packet.take offset ++
      (List.range r.1).map fun i => r.2.mem (outbuf + i)).length = offset + r.1 := by
    rw [List.length_append, htake, List.length_map, List.length_range]
  refine ⟨by omega, hoffset, hshort, by omega, by omega, ?_, ?_⟩
  · rw [List.take_append_of_le_length (by omega), List.take_take, Nat.min_self]
  · rw [hlength, Nat.add_sub_cancel_left]
    intro mem inbuf hmem
    refine hdecompresses mem inbuf fun i hi => ?_
    have hget : ((List.range r.1).map fun i => r.2.mem (outbuf + i)).getD i 0
        = r.2.mem (outbuf + i) := by
      rw [List.getD_eq_getElem?_getD, List.getElem?_map, List.getElem?_range hi]
      rfl
    rw [hmem i hi, List.getD_append_right _ _ _ _ (by omega), htake, Nat.add_sub_cancel_left, hget]

/-- The decompressor stores behind the start of its output only. -/
theorem huffDecompressPacket_mem (ht : HuffTables) (mem : Nat → Byte) (inbuf n : Nat) (out : OutBuf)
    (outbuf outbuflen : Nat) {i : Nat} (hi : i < outbuf) :
    (huffDecompressPacket ht mem inbuf n out outbuf outbuflen).2.mem i = out.mem i := by
  by_cases hfit : outbuflen < n
  · rw [huffDecompressPacket, if_pos hfit]
  · by_cases hstored : mem inbuf = 0x80#8
    · have hcopy : ∃ count src, huffDecompressPacket ht mem inbuf n out outbuf outbuflen
          = (count, out.memcpy outbuf src count) := by
        rw [huffDecompressPacket, if_neg hfit, if_pos hstored]
        exact ⟨_, _, rfl⟩
      obtain ⟨count, src, heq⟩ := hcopy
      rw [heq, OutBuf.memcpy_mem, if_neg (by omega)]
    · obtain ⟨count, -, heq, -⟩ :=
        huffDecompressPacket_coded ht out outbuf (Nat.not_lt.mp hfit) hstored
      rw [heq]
      exact out.storeAll_mem_of_lt outbuf _ hi

/-- Wherever it is copied to, the header stays and the rest is decompressed behind it. -/
theorem Coded.decompress (h : Coded ht offset packet sent) (mem : Nat → Byte) (inbuf : Nat)
    (hmem : ∀ i < sent.length - offset, mem (inbuf + i) = sent.getD (offset + i) 0) (out : OutBuf)
    (hheader : ∀ i < offset, out.mem i = sent.getD i 0) {outbuflen : Nat}
    (hroom : packet.length < outbuflen + offset) :
    (huffDecompressPacket ht mem inbuf (sent.length - offset) out offset outbuflen).1 + offset
        = packet.length ∧
      (List.range packet.length).map
        (huffDecompressPacket ht mem inbuf (sent.length - offset) out offset outbuflen).2.mem
          = packet := by
  have hoffset := h.offset_le
  have hshort := h.short
  have hrest : (packet.drop offset).length = packet.length - offset := List.length_drop
  have hmax : max (packet.drop offset).length (sent.length - offset) ≤ outbuflen :=
    Nat.max_le.mpr ⟨by omega, by omega⟩
  obtain ⟨hcount, hbytes, -⟩ := h.payload mem inbuf hmem out offset outbuflen hmax
  refine ⟨by omega, List.ext_getElem (by simp) fun i hi hi' => ?_⟩
  rw [List.getElem_map, List.getElem_range]
  by_cases hfirst : i < offset
  · -- a byte of the header
    have hsame : (sent.take offset)[i]? = (packet.take offset)[i]? := by rw [h.header]
    rw [List.getElem?_take_of_lt hfirst, List.getElem?_take_of_lt hfirst,
      List.getElem?_eq_getElem hi'] at hsame
    rw [huffDecompressPacket_mem _ _ _ _ _ _ _ hfirst, hheader i hfirst,
      List.getD_eq_getElem?_getD, hsame]
    rfl
  · have hbyte := hbytes (i - offset) (by omega)
    rw [List.getElem_drop] at hbyte
    simp only [Nat.add_sub_cancel' (Nat.not_lt.mp hfirst)] at hbyte
    exact hbyte

/-- So the server has the packet of the client. -/
theorem Coded.huffDecompressPacketSizebuf (h : Coded ht offset packet sent)
    (hshort : packet.length ≤ maxMsglen) (stack behind : Nat → Byte) {maxsize : Nat}
    (hroom : packet.length < maxsize) :
    huffDecompressPacketSizebuf ht stack behind sent maxsize offset = packet := by
  have hlong := h.long
  have hsent := h.short
  have hoffset := h.offset_le
  obtain ⟨hcount, hpacket⟩ := @Coded.decompress _ _ _ _ h
    (fun i => if i < sent.length - offset then sent.getD (offset + i) 0 else stack i) 0
    (fun i hi => by rw [Nat.zero_add, if_pos hi])
    ⟨fun i => if i < sent.length then sent.getD i 0 else behind i, []⟩
    (fun i hi => if_pos (by omega)) (maxsize - offset) (by omega)
  unfold QwNet.huffDecompressPacketSizebuf
  rw [if_neg (by omega)]
  dsimp only
  rw [hcount, hpacket]

end

/-! ## Sending -/

/-- What the client sends travels for the packet, if it is not lost. -/
theorem travelsFor_datagram {q : NetQW} {env : NetQW.SendEnv} {packet sent : List Byte}
    (hsound : ∀ ht ∈ q.huffcontext, ht.Sound) (hlong : 10 ≤ packet.length)
    (hshort : packet.length < 1450) (h : q.datagram? env packet = some sent) :
    TravelsFor q.huffcontext 10 packet sent := by
  unfold NetQW.datagram? at h
  obtain ⟨-, h⟩ := Option.ite_none_left_eq_some.mp h
  cases hcontext : q.huffcontext with
  | none =>
    rw [hcontext] at h
    exact (Option.some.inj h).symm
  | some ht =>
    rw [hcontext] at h
    obtain ⟨-, h⟩ := Option.ite_none_left_eq_some.mp h
    have hs : ht.Sound := hsound ht hcontext
    have hheader := (compress_spec hs env.stack hlong hshort).2
    have hcoded := (coded_compress hs hlong (by unfold maxMsglen; omega)
      (OutBuf.memcpy ⟨env.stack, []⟩ 0 (fun i => packet.getD i 0) 10) 10
      (show packet.length < 1500 - 10 + 10 by omega)).2
    -- the header is copied into the buffer that is sent
    have hsplit : sent = packet.take 10 ++ (List.range (NetQW.compress env.stack ht packet).1).map
        fun i => (NetQW.compress env.stack ht packet).2.mem (10 + i) := by
      have htake : packet.take 10
          = (List.range 10).map (NetQW.compress env.stack ht packet).2.mem := by
        apply List.ext_getElem
        · rw [List.length_take, List.length_map, List.length_range, Nat.min_eq_left hlong]
        · intro i hi hi'
          have hlt : i < 10 := Nat.lt_of_lt_of_le hi (List.length_take_le ..)
          rw [List.getElem_take, List.getElem_map, List.getElem_range, hheader i hlt,
            List.getD_eq_getElem]
      rw [← Option.some.inj h, htake, Nat.add_comm, List.range_add, List.map_append, List.map_map]
      rfl
    rw [hsplit]
    exact hcoded

/-- The datagram of the server.  Whether to compress is asked of `cls.netchan`, which is taken to be
    the same channel. -/
def ServerNetchan.datagram (huff : Option HuffTables) (stack : Nat → Byte) (packet : List Byte) :
    List Byte :=
  match huff with
  | some ht => huffCompressPacketSizebuf ht stack packet sendMaxsize 8
  | none => packet

/-- With three bytes of its buffer to spare the server compresses a packet, inside its local
    buffer. -/
theorem ServerNetchan.travelsFor_datagram {huff : Option HuffTables}
    (hsound : ∀ ht ∈ huff, ht.Sound) (stack : Nat → Byte) {packet : List Byte}
    (hlong : 8 ≤ packet.length) (hroom : huff.isSome → packet.length + 3 ≤ sendMaxsize) :
    TravelsFor huff 8 packet (datagram huff stack packet) := by
  cases huff with
  | none => rfl
  | some ht =>
    have hshort : packet.length + 3 ≤ 1450 + 8 := hroom rfl
    obtain ⟨hfits, hcoded⟩ := coded_compress (hsound ht rfl) hlong
      (by unfold maxMsglen; omega) ⟨stack, []⟩ 0
      (show packet.length < maxMsglen + 1 + 8 by unfold maxMsglen; omega)
    simp only [Nat.zero_add] at hcoded
    show Coded ht 8 packet (huffCompressPacketSizebuf ht stack packet sendMaxsize 8)
    unfold huffCompressPacketSizebuf sendMaxsize
    rw [if_neg (by omega)]
    dsimp only
    rw [if_neg (by omega)]
    exact hcoded

/-! ## Receiving -/

section

variable {huff : Option HuffTables} {q : NetQW} {packet sent : List Byte}

/-- The loop of `NetQW_Thread_DoReceive` looks at the packet. -/
theorem receiveBuf_coded {ht : HuffTables} (hstate : q.state = .connected)
    (hcontext : q.huffcontext = some ht) (h : Coded ht 8 packet sent) (stack : Nat → Byte) :
    (q.receiveBuf stack sent).1 = packet.length ∧
      (List.range packet.length).map (q.receiveBuf stack sent).2 = packet := by
  have hlong := h.long
  have hlength : packet.length ≤ 1450 + 8 := h.length_le
  unfold NetQW.receiveBuf
  rw [hstate, hcontext]
  dsimp only
  rw [if_pos hlong]
  refine h.decompress _ _ (fun i hi => if_pos (by omega)) _ (fun i hi => ?_) (by omega)
  show (if i < 8 then if i < sent.length then sent.getD i 0 else stack i else stack i) = _
  rw [if_pos hi, if_pos (by omega)]

/-- So what the client accepts is the packet. -/
theorem accepts_travelsFor {env : NetQW.SendEnv} {source : NetAddr} {data : List Byte}
    (hknown : q.state ≠ .uninitialised) (h : TravelsFor q.huffcontext 8 packet sent)
    (haccepts : q.accepts? env source sent = some data) : data = packet := by
  cases hcontext : q.huffcontext with
  | none =>
    rw [hcontext] at h
    obtain ⟨rfl, -⟩ := (accepts_plain hcontext).mp haccepts
    exact h
  | some ht =>
    rw [hcontext] at h
    unfold NetQW.accepts? at haccepts
    dsimp only at haccepts
    obtain ⟨⟨-, hchallenge, hconnection, -⟩, hdata⟩ := Option.ite_none_right_eq_some.mp haccepts
    have hstate : q.state = .connected := by
      cases hs : q.state with
      | connected => rfl
      | uninitialised => exact absurd hs hknown
      | sendchallenge => exact absurd hs hchallenge
      | sendconnection => exact absurd hs hconnection
    obtain ⟨hlength, hpacket⟩ := receiveBuf_coded hstate hcontext h env.stack
    rw [← Option.some.inj hdata, hlength, hpacket]

/-- The server reads a header of the datagram itself. -/
theorem serverReadLong_coded {ht : HuffTables} (h : Coded ht 10 packet sent) {i : Nat}
    (hi : i + 4 ≤ 10) : serverReadLong sent i = serverReadLong packet i := by
  have hoffset := h.offset_le
  have hlong := h.long
  have hbyte : ∀ j < 10, sent.getD j 0 = packet.getD j 0 := by
    intro j hj
    have hsame : (sent.take 10)[j]? = (packet.take 10)[j]? := by rw [h.header]
    rw [List.getElem?_take_of_lt hj, List.getElem?_take_of_lt hj] at hsame
    rw [List.getD_eq_getElem?_getD, List.getD_eq_getElem?_getD, hsame]
  unfold serverReadLong readLong
  rw [if_neg (by omega), if_neg (by omega)]
  dsimp only
  rw [hbyte _ (by omega), hbyte _ (by omega), hbyte _ (by omega), hbyte _ (by omega)]

/-- `Netchan_Process` with the datagram of a packet does what it does with the packet. -/
theorem ServerNetchan.process_travelsFor (h : TravelsFor huff 10 packet sent)
    (chan : ServerNetchan) : chan.process sent = chan.process packet ∧
      serverReadLong sent 0 = serverReadLong packet 0 := by
  cases huff with
  | none =>
    obtain rfl : sent = packet := h
    exact ⟨rfl, rfl⟩
  | some ht =>
    have hzero := serverReadLong_coded h (i := 0) (by decide)
    have hfour := serverReadLong_coded h (i := 4) (by decide)
    refine ⟨?_, hzero⟩
    unfold ServerNetchan.process
    rw [hzero, hfour]

end

end QwNet
