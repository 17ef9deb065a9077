/-
  QwNet.Channel.Netchan

  `Netchan_Transmit` and `Netchan_Process` of net_chan.c, at the end of the server.

  The client has its own side of the channel in netqw.c.  What `MSG_WriteLong` and
  `SZ_Write` do is not in the repository, and they are parameters here; the estimates of
  the bandwidth and of the latency are left out, and the compression is not in this module.
-/
import QwNet.Channel.Delivery

namespace QwNet

/-! ## Messages -/

/-- `MSG_WriteLong` and `SZ_Write`, on the bytes that are in the buffer. -/
structure SizebufOps where
  msgWriteLong : List Byte → BitVec 32 → List Byte
  szWrite : List Byte → List Byte → List Byte

/-- `sizeof(send_buf)`. -/
def sendMaxsize : Nat := 1450 + 8

/-- What the code relies on: both append, and `MSG_ReadLong` reads what `MSG_WriteLong` wrote. -/
structure SizebufOps.Lawful (io : SizebufOps) : Prop where
  writeLong : ∀ buf n, buf.length + 4 ≤ sendMaxsize → ∃ bytes,
    io.msgWriteLong buf n = buf ++ bytes ∧ bytes.length = 4 ∧
      readLong (fun i => bytes.getD i 0) 0 = n
  write : ∀ buf data, buf.length + data.length ≤ sendMaxsize → io.szWrite buf data = buf ++ data

/-- `MSG_ReadLong` with the cursor at `i`; it is -1 if the message is too short. -/
def serverReadLong (data : List Byte) (i : Nat) : BitVec 32 :=
  if data.length < i + 4 then -1#32 else readLong (fun i => data.getD i 0) i

/-! ## The channel -/

/-- `struct netchan_s`, without the estimates: `messageBuf` is what `message` holds, and
    `reliableBuf` the first `reliable_length` bytes of `reliable_buf`. -/
structure ServerNetchan where
  incomingSequence : BitVec 32
  incomingAcknowledged : BitVec 32
  incomingReliableAcknowledged : BitVec 32
  incomingReliableSequence : BitVec 32
  outgoingSequence : BitVec 32
  reliableSequence : BitVec 32
  lastReliableSequence : BitVec 32
  messageBuf : List Byte
  overflowed : Bool
  reliableBuf : List Byte

namespace ServerNetchan

/-- `Netchan_Setup`. -/
def setup : ServerNetchan := ⟨0, 0, 0, 0, 0, 0, 0, [], false, []⟩

/-- "If the remote side dropped the last reliable message, resend it". -/
def Dropped (chan : ServerNetchan) : Prop :=
  chan.lastReliableSequence.slt chan.incomingAcknowledged = true ∧
    chan.incomingReliableAcknowledged ≠ chan.reliableSequence

/-- The transmit buffer is empty, and there is a message. -/
def Pending (chan : ServerNetchan) : Prop := chan.reliableBuf = [] ∧ chan.messageBuf ≠ []

instance (chan : ServerNetchan) : Decidable chan.Dropped := inferInstanceAs (Decidable (_ ∧ _))

instance (chan : ServerNetchan) : Decidable chan.Pending := inferInstanceAs (Decidable (_ ∧ _))

/-- "If the reliable transmit buffer is empty, copy the current message out". -/
def copyMessage (chan : ServerNetchan) : ServerNetchan :=
  if chan.Pending then
    { chan with
      reliableBuf := chan.messageBuf
      messageBuf := []
      reliableSequence := chan.reliableSequence ^^^ 1#32 }
  else chan

/-- `send_reliable`. -/
def sendReliable (chan : ServerNetchan) : Bool := decide chan.Dropped || decide chan.Pending

/-- `w1`. -/
def sequenceWord (reliable : Bool) (chan : ServerNetchan) : BitVec 32 :=
  chan.outgoingSequence ||| if reliable then 1#32 <<< 31 else 0#32

/-- `w2`. -/
def acknowledgeWord (chan : ServerNetchan) : BitVec 32 :=
  chan.incomingSequence ||| chan.incomingReliableSequence <<< 31

/-- The packet: the header, the reliable message, and `data` if there is room for it. -/
def packet (io : SizebufOps) (reliable : Bool) (data : List Byte) (chan : ServerNetchan) :
    List Byte :=
  let send := io.msgWriteLong (io.msgWriteLong [] (chan.sequenceWord reliable)) chan.acknowledgeWord
  let send := if reliable then io.szWrite send chan.reliableBuf else send
  if data.length ≤ sendMaxsize - send.length then io.szWrite send data else send

/-- The numbers move on behind the packet. -/
def advance (reliable : Bool) (chan : ServerNetchan) : ServerNetchan :=
  { chan with
    outgoingSequence := chan.outgoingSequence + 1#32
    lastReliableSequence :=
      if reliable then chan.outgoingSequence + 1#32 else chan.lastReliableSequence }

/-- `Netchan_Transmit`: the channel afterwards, and the packet with the reliable message in it;
    there is none after an overflow. -/
def transmit (io : SizebufOps) (data : List Byte) (chan : ServerNetchan) :
    ServerNetchan × Option (List Byte × List Byte) :=
  if chan.overflowed then (chan, none)
  else
    let reliable := chan.sendReliable
    let chan := chan.copyMessage
    (chan.advance reliable,
      some (chan.packet io reliable data, if reliable then chan.reliableBuf else []))

/-- `Netchan_Process`, on the packet `data` of a client. -/
def process (data : List Byte) (chan : ServerNetchan) : ServerNetchan :=
  let sequence := serverReadLong data 0 &&& 0x7fffffff#32
  let sequenceAck := serverReadLong data 4 &&& 0x7fffffff#32
  let reliableMessage := serverReadLong data 0 >>> 31
  let reliableAck := serverReadLong data 4 >>> 31
  -- "discard stale or duplicated packets"
  if sequence ≤ chan.incomingSequence then chan
  else
    { chan with
      reliableBuf := if reliableAck = chan.reliableSequence then [] else chan.reliableBuf
      incomingSequence := sequence
      incomingAcknowledged := sequenceAck
      incomingReliableAcknowledged := reliableAck
      incomingReliableSequence :=
        if reliableMessage ≠ 0#32 then chan.incomingReliableSequence ^^^ 1#32
        else chan.incomingReliableSequence }

/-- `MSG_Write*(&chan->message, ...)`, when `data` fits. -/
def writeMessage (data : List Byte) (chan : ServerNetchan) : ServerNetchan :=
  { chan with messageBuf := chan.messageBuf ++ data }

end ServerNetchan

/-! ## Headers -/

/-- A number in a header, and its flag, are the two parts of a word. -/
theorem number31_eq (buf : Nat → Byte) (i : Nat) :
    number31 buf i = readLong buf i &&& 0x7fffffff#32 := by
  have hmask : 0x7fffffff#32 = 0x7f#8 ++ 0xff#8 ++ 0xff#8 ++ 0xff#8 := by decide
  have hbyte : ∀ b : Byte, b &&& 0xff#8 = b := by decide
  unfold number31 readLong
  rw [hmask, BitVec.and_append, BitVec.and_append, BitVec.and_append, hbyte, hbyte, hbyte]

theorem topBit_eq (buf : Nat → Byte) (i : Nat) : topBit buf (i + 3) = (readLong buf i).msb := by
  have hflag : ∀ b : Byte, decide (b &&& 0x80#8 ≠ 0#8) = b.msb := by decide
  unfold topBit readLong
  rw [hflag, BitVec.msb_append, BitVec.msb_append, BitVec.msb_append]
  rfl

/-- The flag as a word. -/
theorem ushiftRight_31 (n : BitVec 32) : n >>> 31 = if n.msb then 1#32 else 0#32 := by
  apply BitVec.eq_of_toNat_eq
  rw [BitVec.toNat_ushiftRight, Nat.shiftRight_eq_div_pow]
  have hlt := n.isLt
  cases hmsb : n.msb with
  | true =>
    have hle := BitVec.msb_eq_true_iff_two_mul_ge.mp hmsb
    show n.toNat / 2 ^ 31 = 1
    omega
  | false =>
    have hless := BitVec.msb_eq_false_iff_two_mul_lt.mp hmsb
    show n.toNat / 2 ^ 31 = 0
    omega

/-- A number of 31 bits and a flag are read back from their word. -/
theorem word_spec {n : BitVec 32} (hn : n.toNat < 2 ^ 31) (flag : Bool) :
    (n ||| if flag then 1#32 <<< 31 else 0#32) &&& 0x7fffffff#32 = n ∧
      (n ||| if flag then 1#32 <<< 31 else 0#32).msb = flag := by
  have hmask : (if flag then 1#32 <<< 31 else 0#32) &&& 0x7fffffff#32 = 0#32 := by
    cases flag <;> decide
  have hflag : (if flag then 1#32 <<< 31 else 0#32).msb = flag := by
    cases flag <;> decide
  refine ⟨?_, ?_⟩
  · rw [BitVec.and_or_distrib_right, hmask, and_mask_of_lt hn, BitVec.or_zero]
  · rw [BitVec.msb_or, hflag, BitVec.msb_eq_false_iff_two_mul_lt.mpr (by omega), Bool.false_or]

theorem readLong_writeLong (n : BitVec 32) : readLong (fun i => (writeLong n).getD i 0) 0 = n := by
  show ((n >>> 24).setWidth 8 ++ (n >>> 16).setWidth 8 ++ (n >>> 8).setWidth 8
    ++ n.setWidth 8 : BitVec 32) = n
  apply BitVec.eq_of_getLsbD_eq
  intro i hi
  simp only [BitVec.getLsbD_append, BitVec.getLsbD_setWidth, BitVec.getLsbD_ushiftRight]
  -- one byte after the other, the lowest first
  by_cases h₀ : i < 8
  · simp [h₀]
  by_cases h₁ : i - 8 < 8
  · simp [h₀, h₁, show 8 + (i - 8) = i by omega]
  by_cases h₂ : i - 8 - 8 < 8
  · simp [h₀, h₁, h₂, show 16 + (i - 8 - 8) = i by omega]
  · have h₃ : i - 8 - 8 - 8 < 8 := by omega
    simp [h₀, h₁, h₂, h₃, show 24 + (i - 8 - 8 - 8) = i by omega]

/-- A word is read from its own four bytes. -/
theorem readLong_append {bytes : List Byte} (hlength : bytes.length = 4) (rest : List Byte) :
    readLong (fun i => (bytes ++ rest).getD i 0) 0 = readLong (fun i => bytes.getD i 0) 0 := by
  have hbyte : ∀ i < 4, (bytes ++ rest).getD i 0 = bytes.getD i 0 := fun i hi =>
    List.getD_append _ _ _ _ (by omega)
  simp only [readLong, hbyte 3 (by decide), hbyte 2 (by decide), hbyte 1 (by decide),
    hbyte 0 (by decide), Nat.zero_add]

/-- Behind four bytes the reading goes on. -/
theorem readLong_four {bytes : List Byte} (hlength : bytes.length = 4) (rest : List Byte) :
    readLong (fun i => (bytes ++ rest).getD i 0) 4 = readLong (fun i => rest.getD i 0) 0 := by
  have hbyte : ∀ i, (bytes ++ rest).getD (4 + i) 0 = rest.getD i 0 := by
    intro i
    rw [List.getD_append_right _ _ _ _ (by omega), hlength, Nat.add_sub_cancel_left]
  simp only [readLong, hbyte, hbyte 0, Nat.zero_add]

namespace ServerNetchan

variable {io : SizebufOps} {chan : ServerNetchan}

/-- A packet is the two words, the reliable message, and what else fits. -/
theorem packet_eq (hio : io.Lawful) (hfits : chan.reliableBuf.length ≤ 1450) (reliable : Bool)
    (data : List Byte) : ∃ bytes bytes' rest, chan.packet io reliable data
        = bytes ++ (bytes' ++ ((if reliable then chan.reliableBuf else []) ++ rest)) ∧
      bytes.length = 4 ∧ readLong (fun i => bytes.getD i 0) 0 = chan.sequenceWord reliable ∧
      bytes'.length = 4 ∧ readLong (fun i => bytes'.getD i 0) 0 = chan.acknowledgeWord ∧
      (chan.packet io reliable data).length ≤ sendMaxsize := by
  obtain ⟨bytes, hbytes, hlength, hread⟩ :=
    hio.writeLong [] (chan.sequenceWord reliable) (by decide)
  rw [List.nil_append] at hbytes
  have hfour : bytes.length + 4 ≤ sendMaxsize := by
    rw [hlength]
    decide
  obtain ⟨bytes', hbytes', hlength', hread'⟩ := hio.writeLong bytes chan.acknowledgeWord hfour
  have hroom : (bytes ++ bytes').length + chan.reliableBuf.length ≤ sendMaxsize := by
    rw [List.length_append, hlength, hlength']
    show 4 + 4 + chan.reliableBuf.length ≤ 1450 + 8
    omega
  -- the reliable message fits behind the header
  have hreliable : (if reliable then io.szWrite (bytes ++ bytes') chan.reliableBuf
        else bytes ++ bytes') = bytes ++ bytes' ++ (if reliable then chan.reliableBuf else []) ∧
      (bytes ++ bytes' ++ (if reliable then chan.reliableBuf else [])).length ≤ sendMaxsize := by
    cases reliable with
    | true =>
      refine ⟨hio.write _ _ hroom, ?_⟩
      rw [List.length_append]
      exact hroom
    | false =>
      refine ⟨(List.append_nil _).symm, ?_⟩
      rw [if_neg Bool.false_ne_true, List.append_nil]
      exact Nat.le_trans (Nat.le_add_right ..) hroom
  obtain ⟨hportion, hsize⟩ := hreliable
  have hpacket : ∃ rest, chan.packet io reliable data
        = bytes ++ bytes' ++ (if reliable then chan.reliableBuf else []) ++ rest ∧
      (chan.packet io reliable data).length ≤ sendMaxsize := by
    unfold packet
    dsimp only
    rw [hbytes, hbytes', hportion]
    generalize bytes ++ bytes' ++ (if reliable then chan.reliableBuf else []) = send at hsize ⊢
    split
    next hdata =>
      rw [hio.write _ _ (by omega)]
      exact ⟨data, rfl, by rw [List.length_append]; omega⟩
    next => exact ⟨[], (List.append_nil _).symm, hsize⟩
  obtain ⟨rest, heq, hle⟩ := hpacket
  rw [List.append_assoc, List.append_assoc] at heq
  exact ⟨bytes, bytes', rest, heq, hlength, hread, hlength', hread', hle⟩

/-- The client reads the number and the flag that were meant. -/
theorem packet_spec (hio : io.Lawful) (hfits : chan.reliableBuf.length ≤ 1450)
    (hnumber : chan.outgoingSequence.toNat < 2 ^ 31) (reliable : Bool) (data : List Byte) :
    sequenceOf (chan.packet io reliable data) = chan.outgoingSequence ∧
      isReliable (chan.packet io reliable data) = reliable := by
  obtain ⟨bytes, bytes', rest, heq, hlength, hread, -⟩ := chan.packet_eq hio hfits reliable data
  have hword : readLong (fun i => (chan.packet io reliable data).getD i 0) 0
      = chan.sequenceWord reliable := by
    rw [heq, readLong_append hlength, hread]
  have hspec := word_spec hnumber reliable
  refine ⟨?_, ?_⟩
  · rw [sequenceOf, number31_eq, hword]
    exact hspec.1
  · rw [isReliable, topBit_eq _ 0, hword]
    exact hspec.2

/-- The client reads what the server has heard of it. -/
theorem packet_acknowledges (hio : io.Lawful) (hfits : chan.reliableBuf.length ≤ 1450)
    (hsequence : chan.incomingSequence.toNat < 2 ^ 31) {bit : Bool}
    (hbit : chan.incomingReliableSequence = if bit then 1#32 else 0#32) (reliable : Bool)
    (data : List Byte) : acknowledgeOf (chan.packet io reliable data) = chan.incomingSequence ∧
      acknowledgeBit (chan.packet io reliable data) = bit := by
  obtain ⟨bytes, bytes', rest, heq, hlength, -, hlength', hread, -⟩ :=
    chan.packet_eq hio hfits reliable data
  have hword : readLong (fun i => (chan.packet io reliable data).getD i 0) 4
      = chan.incomingSequence ||| if bit then 1#32 <<< 31 else 0#32 := by
    rw [heq, readLong_four hlength, readLong_append hlength', hread, acknowledgeWord, hbit]
    cases bit with
    | true => rfl
    | false => rfl
  have hspec := word_spec hsequence bit
  refine ⟨?_, ?_⟩
  · rw [acknowledgeOf, number31_eq, hword]
    exact hspec.1
  · rw [acknowledgeBit, topBit_eq _ 4, hword]
    exact hspec.2

end ServerNetchan

end QwNet
