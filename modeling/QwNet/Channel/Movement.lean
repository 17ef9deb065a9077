/-
  QwNet.Channel.Movement

  A movement packet on its way to the socket.

  The packet is filled up to 1450 bytes, compressed into a buffer of 1500, and the
  decoder writes at most 1450.  For every state these three limits fit together.
-/
import Mathlib.Data.List.GetD
import QwNet.Channel.Connect
import QwNet.Huffman.RoundTrip
import QwNet.Lib.Fitting

namespace QwNet

open Fitting

/-! ## The packet -/

/-- The length of a reliable buffer. -/
def ReliableBuffer.length (b : ReliableBuffer) : Nat := b.data.length

theorem length_flatMap_data (bs : List ReliableBuffer) :
    (bs.flatMap ReliableBuffer.data).length = total ReliableBuffer.length bs := by
  rw [List.length_flatMap]
  rfl

/-- The loop over the reliable buffers takes as many as fit. -/
theorem longest_fitting {i : Nat} (hi : i < 1450) {queue : List ReliableBuffer}
    (hqueue : ∀ b ∈ queue, b.data.length < 2 ^ 31) :
    Longest ReliableBuffer.length 1450 i queue (NetQW.fitting i queue) := by
  induction queue generalizing i with
  | nil => exact .nil hi
  | cons b rest ih =>
    have hb := hqueue b List.mem_cons_self
    -- Below `2 ^ 31` the sum does not wrap
    have hmod : (i + b.data.length) % 2 ^ 32 = i + b.data.length := Nat.mod_eq_of_lt (by omega)
    rw [NetQW.fitting, hmod]
    split
    · exact .cons (ih ‹_› fun b hb => hqueue b (List.mem_cons_of_mem _ hb))
    · exact .stop hi (Nat.not_lt.mp ‹_›)

section

variable (angle16 : BitVec 32 → BitVec 16) (q q₁ q₂ q₃ q₄ : NetQW)

theorem length_header : q.header.length = 10 := by
  rw [NetQW.header, List.length_append, orAt, List.length_set]
  rfl

theorem length_beginPacket : 13 ≤ (q.beginPacket angle16).length ∧
    (q.beginPacket angle16).length ≤ 61 := by
  have h₂ := writeDeltaUsercmd_length_le angle16 zerocmd (q.recentCmd 2)
  have h₁ := writeDeltaUsercmd_length_le angle16 (q.recentCmd 2) (q.recentCmd 1)
  have h₀ := writeDeltaUsercmd_length_le angle16 (q.recentCmd 1) (q.recentCmd 0)
  simp only [NetQW.beginPacket, NetQW.moveData, List.length_append, List.length_cons,
    length_header]
  omega

theorem length_deltaBytes : q.deltaBytes.length ≤ 2 := by
  unfold NetQW.deltaBytes
  split
  · exact Nat.le_refl 2
  · exact Nat.zero_le 2

theorem length_tmoveBytes : q.tmoveBytes.length ≤ 7 := by
  unfold NetQW.tmoveBytes
  split
  · rw [List.length_cons, List.length_ofFn]
  · exact Nat.zero_le 7

/-- A packet before its reliable buffers; the client thread may run between the pieces. -/
def packetBase : List Byte := q₁.beginPacket angle16 ++ q₂.deltaBytes ++ q₃.tmoveBytes

theorem length_packetBase : 13 ≤ (packetBase angle16 q₁ q₂ q₃).length ∧
    (packetBase angle16 q₁ q₂ q₃).length ≤ 70 := by
  have h₁ := length_beginPacket angle16 q₁
  have h₂ := length_deltaBytes q₂
  have h₃ := length_tmoveBytes q₃
  rw [packetBase, List.length_append, List.length_append]
  omega

/-- The packet consists of the base, marked if reliable buffers follow, and the buffers. -/
theorem appendReliables_eq {base : List Byte} (hbase : 3 < base.length) :
    q.appendReliables base
      = (if q.reliableCount base.length ≠ 0#32 then orAt base 3 0x80 else base)
        ++ (q.reliables base.length).flatMap ReliableBuffer.data := by
  unfold NetQW.appendReliables
  dsimp only
  split
  · rw [orAt, orAt, List.set_append_left _ _ hbase, List.getD_append _ _ _ _ hbase]
  · rfl

theorem length_appendReliables {base : List Byte} (hbase : 3 < base.length) :
    (q.appendReliables base).length
      = base.length + total ReliableBuffer.length (q.reliables base.length) := by
  rw [appendReliables_eq q hbase, List.length_append, length_flatMap_data]
  split
  · rw [orAt, List.length_set]
  · rfl

end

/-! ## The way to the socket -/

/-- The receiver keeps the first ten bytes of `sent` and decompresses the others behind them,
    into a buffer of at least 1500 bytes; what it then has is `packet`. -/
def Recovers (ht : HuffTables) (sent packet : List Byte) : Prop :=
  sent.take 10 = packet.take 10 ∧
    ∀ (stack : Nat → Byte) (buf : OutBuf) (buflen : Nat), 1490 ≤ buflen →
      let received := fun i => if i < sent.length then sent.getD i 0 else stack i
      let d := huffDecompressPacket ht received 10 (sent.length - 10) buf 10 buflen
      d.1 = packet.length - 10 ∧
        ∀ i < packet.length - 10, d.2.mem (10 + i) = packet.getD (10 + i) 0

/-- `NetQW_Thread_SendPacket` given `packet` sends `sent`, or queues it if there is a lag; only
    a failing `malloc` keeps it from the queue. -/
structure Departs (env : NetQW.SendEnv) (packet sent : List Byte) (q : NetQW) : Prop where
  handed : q.sendPacket env packet false = q.sendOrQueue env sent false
  sent : env.alloc = true → q.sendOrQueue env sent false
    = if q.lag ≠ 0#32 then q.queuePacket env.now sent else q.log [.netSend sent]

/-- `NetQW_Thread_SendPacket` hands the packet on, as it is or compressed. -/
def HandsOn (env : NetQW.SendEnv) (packet : List Byte) (q : NetQW) : Prop :=
  match q.huffcontext with
  | none => Departs env packet packet q
  | some ht =>
    let r := NetQW.compress env.stack ht packet
    let sent := (List.range (r.1 + 10)).map r.2.mem
    r.1 ≠ 0 ∧ (∀ i ∈ r.2.stores, i < 1500) ∧ Departs env packet sent q ∧ Recovers ht sent packet

theorem departs {env : NetQW.SendEnv} {packet sent : List Byte} {q : NetQW}
    (h : q.sendPacket env packet false = q.sendOrQueue env sent false) :
    Departs env packet sent q := by
  refine ⟨h, fun halloc => ?_⟩
  unfold NetQW.sendOrQueue
  rw [if_pos halloc]
  congr 1
  simp

section

variable {ht : HuffTables} {packet : List Byte}

/-- Compression stays inside its buffer and leaves the first ten bytes as they are. -/
theorem compress_spec (hs : ht.Sound) (stack : Nat → Byte) (hlong : 10 ≤ packet.length)
    (hshort : packet.length < 1450) :
    (∀ i ∈ (NetQW.compress stack ht packet).2.stores, i < 1500) ∧
      ∀ i < 10, (NetQW.compress stack ht packet).2.mem i = packet.getD i 0 := by
  have hrest : (packet.drop 10).length = packet.length - 10 := List.length_drop
  have hbound := (huffCompressPacket_spec hs (packet.drop 10)
    ((⟨stack, []⟩ : OutBuf).memcpy 0 (fun i => packet.getD i 0) 10) 10 1490 (by omega)
    (by omega)).2
  refine ⟨?_, ?_⟩
  · obtain ⟨new, heq, hnew⟩ := hbound.stores
    intro i hi
    rw [NetQW.compress, heq, OutBuf.memcpy_stores, List.nil_append] at hi
    rcases List.mem_append.mp hi with hi | hi
    · obtain ⟨k, hk, rfl⟩ := List.mem_map.mp hi
      have := List.mem_range.mp hk
      omega
    · have := hnew i hi
      omega
  · intro i hi
    rw [NetQW.compress, hbound.mem i (.inl hi), OutBuf.memcpy_mem, if_pos (by omega), Nat.sub_zero]

theorem recovers_compress (hs : ht.Sound) (stack : Nat → Byte) (hlong : 10 ≤ packet.length)
    (hshort : packet.length < 1450) :
    (NetQW.compress stack ht packet).1 ≠ 0 ∧
      (NetQW.compress stack ht packet).1 + 10 ≤ packet.length + 1 ∧
      Recovers ht ((List.range ((NetQW.compress stack ht packet).1 + 10)).map
        (NetQW.compress stack ht packet).2.mem) packet := by
  have hrest : (packet.drop 10).length = packet.length - 10 := List.length_drop
  have hmax : maxMsglen = 1450 := rfl
  obtain ⟨hpos, hle, hdecompress⟩ := huffCompressPacket_decompresses hs (packet.drop 10)
    ((⟨stack, []⟩ : OutBuf).memcpy 0 (fun i => packet.getD i 0) 10) 10 1490 (by omega) (by omega)
  have hheader := (compress_spec hs stack hlong hshort).2
  obtain ⟨r, hr⟩ : ∃ r, r = NetQW.compress stack ht packet := ⟨_, rfl⟩
  have hr' : huffCompressPacket ht (packet.drop 10)
    ((⟨stack, []⟩ : OutBuf).memcpy 0 (fun i => packet.getD i 0) 10) 10 1490 = r := hr.symm
  rw [hr'] at hpos hle hdecompress
  rw [← hr] at hheader ⊢
  refine ⟨Nat.ne_of_gt hpos, by omega, ?_, ?_⟩
  · apply List.ext_getElem
    · simp only [List.length_take, List.length_map, List.length_range]
      omega
    · intro i hi hi'
      have hlt : i < 10 := Nat.lt_of_lt_of_le hi (List.length_take_le ..)
      rw [List.getElem_take, List.getElem_map, List.getElem_range, hheader i hlt,
        List.getElem_take, List.getD_eq_getElem]
  · intro stack' buf buflen hbuflen received
    have hlength : ((List.range (r.1 + 10)).map r.2.mem).length - 10 = r.1 := by
      rw [List.length_map, List.length_range, Nat.add_sub_cancel]
    have hreceived : ∀ i, i < r.1 → received (10 + i) = r.2.mem (10 + i) := by
      intro i hi
      have hlt : 10 + i < ((List.range (r.1 + 10)).map r.2.mem).length := by
        rw [List.length_map, List.length_range]
        omega
      calc received (10 + i)
          = ((List.range (r.1 + 10)).map r.2.mem).getD (10 + i) 0 := if_pos hlt
        _ = r.2.mem (10 + i) := by
          rw [List.getD_eq_getElem _ _ hlt, List.getElem_map, List.getElem_range]
    obtain ⟨hd, hbytes, -⟩ := hdecompress received 10 hreceived buf 10 buflen (by omega)
    dsimp only
    rw [hlength]
    refine ⟨hd.trans hrest, fun i hi => ?_⟩
    rw [hbytes i (by omega), List.getElem_drop, List.getD_eq_getElem]

/-- A packet of this length is never dropped. -/
theorem handsOn {q : NetQW} (env : NetQW.SendEnv)
    (hhuff : ∀ ht, q.huffcontext = some ht → ∃ crc, huffInit crc = some ht)
    (hlong : 10 ≤ packet.length) (hshort : packet.length < 1450) : HandsOn env packet q := by
  have hroom : ¬1500 ≤ packet.length := by omega
  unfold HandsOn
  split
  · rename_i hnone
    apply departs
    rw [NetQW.sendPacket, if_neg hroom, hnone]
  · rename_i ht hsome
    obtain ⟨crc, hinit⟩ := hhuff ht hsome
    have hs := huffInit_sound hinit
    obtain ⟨hne, -, hrecovers⟩ := recovers_compress hs env.stack hlong hshort
    refine ⟨hne, (compress_spec hs env.stack hlong hshort).1, departs ?_, hrecovers⟩
    rw [NetQW.sendPacket, if_neg hroom, hsome]
    exact if_neg hne

end

/-! ## One iteration of `NetQW_Thread_DoSend` -/

/-- An iteration builds `packet` on `base`, with the reliable buffers `taken`.  The states are
    those in which its first four sections run; the client thread may run between them. -/
structure Built (angle16 : BitVec 32 → BitVec 16) (q₁ q₂ q₃ q₄ : NetQW) (base packet : List Byte)
    (taken : List ReliableBuffer) : Prop where
  sections : ∃ buf₁ buf₂,
    (Client.step angle16 .buildPacket ⟨q₁, .loop⟩).map Client.pc = some (.delta buf₁) ∧
    (Client.step angle16 .addDelta ⟨q₂, .delta buf₁⟩).map Client.pc = some (.tmove buf₂) ∧
    (Client.step angle16 .addTmove ⟨q₃, .tmove buf₂⟩).map Client.pc = some (.reliable base) ∧
    (Client.step angle16 .addReliables ⟨q₄, .reliable base⟩).map Client.pc
      = some (.submit packet taken)

theorem Built.eq {angle16 : BitVec 32 → BitVec 16} {q₁ q₂ q₃ q₄ : NetQW} {base packet : List Byte}
    {taken : List ReliableBuffer} (h : Built angle16 q₁ q₂ q₃ q₄ base packet taken) :
    base = packetBase angle16 q₁ q₂ q₃ ∧ packet = q₄.appendReliables base ∧
      taken = q₄.reliables base.length := by
  obtain ⟨buf₁, buf₂, h₁, h₂, h₃, h₄⟩ := h.sections
  obtain ⟨c₁, hc₁, hpc₁⟩ := Option.map_eq_some_iff.mp h₁
  have hbuild : Client.buildPacket angle16 ⟨q₁, .loop⟩ = some c₁ := hc₁
  obtain ⟨-, -, rfl⟩ := Client.buildPacket_spec hbuild
  obtain rfl := SendPc.delta.inj hpc₁
  obtain rfl := SendPc.tmove.inj (Option.some.inj h₂)
  obtain rfl := SendPc.reliable.inj (Option.some.inj h₃)
  obtain ⟨rfl, rfl⟩ := SendPc.submit.inj (Option.some.inj h₄)
  exact ⟨rfl, rfl, rfl⟩

/-- Every iteration builds a packet. -/
theorem built_packetBase (angle16 : BitVec 32 → BitVec 16) (q₁ q₂ q₃ q₄ : NetQW)
    (htosend : q₁.framestosend ≠ 0#32) : Built angle16 q₁ q₂ q₃ q₄ (packetBase angle16 q₁ q₂ q₃)
      (q₄.appendReliables (packetBase angle16 q₁ q₂ q₃))
      (q₄.reliables (packetBase angle16 q₁ q₂ q₃).length) := by
  have hbuild : Client.step angle16 .buildPacket ⟨q₁, .loop⟩
      = some ⟨q₁.logBuild, .delta (q₁.beginPacket angle16)⟩ := if_neg htosend
  refine ⟨q₁.beginPacket angle16, q₁.beginPacket angle16 ++ q₂.deltaBytes, ?_, rfl, rfl, rfl⟩
  rw [hbuild]
  rfl

/-- What becomes of the packet, sent in the state `q₅`. -/
structure Survives (env : NetQW.SendEnv) (q₄ q₅ : NetQW) (base packet : List Byte)
    (taken : List ReliableBuffer) : Prop where
  /-- It stays below the limit, and with it inside its buffer. -/
  length : packet.length < 1450
  /-- It ends with the reliable buffers. -/
  contents : packet.drop base.length = taken.flatMap ReliableBuffer.data
  /-- Those are none while some are unacknowledged, else as many as fit. -/
  taken : if q₄.reliableBuffersSent = 0#32 then
      Longest ReliableBuffer.length 1450 base.length q₄.reliableQueue taken
    else taken = []
  /-- It is not dropped, and the receiver can read it. -/
  handsOn : HandsOn env packet q₅

/-- Every movement packet survives the send path intact, for all states of the object whose
    reliable buffers are shorter than `2 ^ 31` bytes and whose tables are from `Huff_Init`. -/
theorem movement_survives {angle16 : BitVec 32 → BitVec 16} (env : NetQW.SendEnv)
    {q₁ q₂ q₃ q₄ q₅ : NetQW} {base packet : List Byte} {taken : List ReliableBuffer}
    (hbuilt : Built angle16 q₁ q₂ q₃ q₄ base packet taken)
    (hqueue : ∀ b ∈ q₄.reliableQueue, b.data.length < 2 ^ 31)
    (hhuff : ∀ ht, q₅.huffcontext = some ht → ∃ crc, huffInit crc = some ht) :
    Survives env q₄ q₅ base packet taken := by
  obtain ⟨rfl, rfl, rfl⟩ := hbuilt.eq
  obtain ⟨hlong, hshort⟩ := length_packetBase angle16 q₁ q₂ q₃
  have htaken : if q₄.reliableBuffersSent = 0#32 then
      Longest ReliableBuffer.length 1450 (packetBase angle16 q₁ q₂ q₃).length q₄.reliableQueue
        (q₄.reliables (packetBase angle16 q₁ q₂ q₃).length)
      else q₄.reliables (packetBase angle16 q₁ q₂ q₃).length = [] := by
    unfold NetQW.reliables
    split
    · exact longest_fitting (by omega) hqueue
    · rfl
  have hlength := length_appendReliables q₄ (Nat.lt_of_lt_of_le (by decide) hlong)
  have hfits : (packetBase angle16 q₁ q₂ q₃).length
      + total ReliableBuffer.length (q₄.reliables (packetBase angle16 q₁ q₂ q₃).length) < 1450 := by
    split at htaken
    · exact htaken.fits
    · rw [htaken, total_nil]
      omega
  refine ⟨by omega, ?_, htaken, QwNet.handsOn env hhuff (by omega) (by omega)⟩
  rw [appendReliables_eq q₄ (Nat.lt_of_lt_of_le (by decide) hlong)]
  apply List.drop_left'
  split
  · rw [orAt, List.length_set]
  · rfl

/-- The first packet of a client that has agreed with the server on compression: it carries
    the command `new`. -/
theorem movement_survives_established :
    let q : NetQW := { Client.freshEstablished.netqw with
      framestosend := 1, huffcontext := some hufftablesQ3 }
    let base := packetBase (fun _ => 0) q q q
    Survives ⟨0#64, true, fun _ => 0⟩ q q base (q.appendReliables base)
      (q.reliables base.length) := by
  intro q
  have hqueue : ∀ b ∈ q.reliableQueue, b.data.length < 2 ^ 31 :=
    List.forall_mem_singleton.mpr (by decide)
  have hhuff : ∀ ht, q.huffcontext = some ht → ∃ crc, huffInit crc = some ht :=
    fun ht h => ⟨0x286f2e8d#32, h⟩
  have htosend : q.framestosend ≠ 0#32 := nofun
  generalize q = q at hqueue hhuff htosend
  exact movement_survives _ (built_packetBase _ q q q q htosend) hqueue hhuff

end QwNet
