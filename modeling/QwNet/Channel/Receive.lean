/-
  QwNet.Channel.Receive

  `NetQW_Thread_HandleReceivedPacket`, one pass of the loop of `NetQW_Thread_DoReceive`,
  and the queues of `NetQW_Thread`.
-/
import QwNet.Channel.Send

namespace QwNet

/-- The 31-bit number at `buf + i`; the top bit of its last byte is a flag. -/
def number31 (buf : Nat → Byte) (i : Nat) : BitVec 32 :=
  (buf (i + 3) &&& 0x7f#8) ++ buf (i + 2) ++ buf (i + 1) ++ buf i

/-- `unsigned int` at `buf + i`, low byte first. -/
def readLong (buf : Nat → Byte) (i : Nat) : BitVec 32 :=
  buf (i + 3) ++ buf (i + 2) ++ buf (i + 1) ++ buf i

/-- The flag bit of the byte at `buf + i`. -/
def topBit (buf : Nat → Byte) (i : Nat) : Bool := buf i &&& 0x80#8 ≠ 0#8

/-- The value of a string of digits. -/
def digitsValue (s : List Byte) : Nat :=
  (s.takeWhile fun c => 48#8 ≤ c ∧ c ≤ 57#8).foldl (fun n c => 10 * n + (c.toNat - 48)) 0

/-- `isspace`. -/
def isSpace (c : Byte) : Bool := c = 32#8 ∨ 9#8 ≤ c ∧ c ≤ 13#8

/-- `atoi`, of less than 16 characters: white space, a sign, and digits. -/
def atoi (s : List Byte) : BitVec 32 :=
  match s.dropWhile isSpace with
  | 45#8 :: rest => -BitVec.ofNat 32 (digitsValue rest)
  | 43#8 :: rest => BitVec.ofNat 32 (digitsValue rest)
  | rest => BitVec.ofNat 32 (digitsValue rest)

namespace NetQW

/-! ## `NetQW_Thread_HandleReceivedPacket` -/

/-- The packet's sequence number and its reliable flag are taken over. -/
def noteSequence (buf : Nat → Byte) (q : NetQW) : NetQW :=
  { q with
    lastIncomingSequenceNumber := number31 buf 0
    outgoingReliableXor :=
      if topBit buf 3 then q.outgoingReliableXor ^^^ 1#32 else q.outgoingReliableXor }

/-- How many slots of the history the statistic looks at, in unsigned arithmetic. -/
def historyLength (sequenceNumber : BitVec 32) (q : NetQW) : BitVec 32 :=
  let j := if 200#32 < q.currentOutgoingSequenceNumber then 200#32
    else q.currentOutgoingSequenceNumber
  j - (q.currentOutgoingSequenceNumber - sequenceNumber + 1#32)

/-- `lostpackets`: the slots of the history without a reply. -/
def lostPackets (sequenceNumber : BitVec 32) (q : NetQW) : BitVec 32 :=
  BitVec.ofNat 32 <| (List.range (q.historyLength sequenceNumber).toNat).countP fun i =>
    q.replyreceived ((sequenceNumber - BitVec.ofNat 32 i).toNat % 200) = 0#8

/-- The reply to packet `sequence_number` is noted. -/
def noteReply (sequenceNumber : BitVec 32) (q : NetQW) : NetQW :=
  { q with replyreceived := Function.update q.replyreceived (sequenceNumber.toNat % 200) 1 }

/-- The packet loss in percent, rounded up. -/
def setPacketloss (lostpackets : BitVec 32) (q : NetQW) : NetQW :=
  { q with packetloss := ((lostpackets * 100#32 + 199#32) / 200#32).setWidth 8 }

/-- The reply is noted and the packet loss computed anew. -/
def notePacketloss (sequenceNumber : BitVec 32) (q : NetQW) : NetQW :=
  if q.currentOutgoingSequenceNumber < sequenceNumber + 200#32 then
    let q := q.noteReply sequenceNumber
    q.setPacketloss (q.lostPackets sequenceNumber)
  else q

/-- The first `n` buffers leave the queue; no more are sent. -/
def dropReliables (n : Nat) (q : NetQW) : NetQW :=
  { q with reliableQueue := q.reliableQueue.drop n, reliableBuffersSent := 0 }

/-- `free` of the first `reliable_buffers_sent` buffers. -/
def freeReliables (q : NetQW) : NetQW :=
  let n := q.reliableBuffersSent.toNat
  let faults := if q.reliableQueue.length < n then [NetEvent.fault] else []
  (q.dropReliables n).log ((q.reliableQueue.take n).map NetEvent.free ++ faults)

/-- The reliable packet got lost: it is to be sent again. -/
def resendReliables (q : NetQW) : NetQW :=
  { q with reliableBuffersSent := 0, incomingReliableXor := q.incomingReliableXor ^^^ 1#32 }

/-- The fate of the reliable packet; `ackbit` is the bit of the server. -/
def settleReliables (sequenceNumber : BitVec 32) (ackbit : Bool) (q : NetQW) : NetQW :=
  if q.reliableBuffersSent ≠ 0#32 ∧ q.reliableSequenceNumber ≤ sequenceNumber then
    if (q.incomingReliableXor ≠ 0#32) ≠ (ackbit = true) then q.resendReliables
    else q.freeReliables
  else q

/-- `NetQW_Thread_HandleReceivedPacket`. -/
def handleReceivedPacket (data : List Byte) (q : NetQW) : NetQW :=
  let buf := fun i => data.getD i 0
  let sequenceNumber := number31 buf 0
  (((q.log [.handle data]).noteSequence buf).notePacketloss sequenceNumber).settleReliables
    sequenceNumber (topBit buf 7)

/-! ## `NetQW_Thread_DoReceive` -/

/-- The datagram as the loop looks at it: `r` and `buf`.  Behind it is what was on the
    stack. -/
def receiveBuf (stack : Nat → Byte) (datagram : List Byte) (q : NetQW) : Nat × (Nat → Byte) :=
  let received := fun i => if i < datagram.length then datagram.getD i 0 else stack i
  match q.state, q.huffcontext with
  | .connected, some ht =>
    let buf : OutBuf := ⟨fun i => if i < 8 then received i else stack i, []⟩
    if 8 < datagram.length then
      let r := huffDecompressPacket ht received 8 (datagram.length - 8) buf 8 (1500 - 8 - 1)
      (r.1 + 8, r.2.mem)
    else (datagram.length, buf.mem)
  | _, _ => (datagram.length, received)

/-- One protocol extension that the server offers. -/
def noteExtension (extension value : BitVec 32) (q : NetQW) : NetQW :=
  if extension = 0x46465548#32 then
    match huffInit value with
    | some ht => { q with huffcontext := some ht, huffcrc := value }
    -- "Unable to initialise Huffman coding"
    | none => { q with huffcontext := none }
  -- "Unknown protocol extension"
  else q

/-- The loop over the extensions, eight bytes each. -/
def noteExtensions : List Byte → NetQW → NetQW
  | p₀ :: p₁ :: p₂ :: p₃ :: p₄ :: p₅ :: p₆ :: p₇ :: rest, q =>
    noteExtensions rest (q.noteExtension (p₃ ++ p₂ ++ p₁ ++ p₀) (p₇ ++ p₆ ++ p₅ ++ p₄))
  | _, q => q

/-- Bytes `0` to `3` are 255, and there is a fifth one. -/
def Connectionless (r : Nat) (buf : Nat → Byte) : Prop :=
  5 ≤ r ∧ buf 0 = 255#8 ∧ buf 1 = 255#8 ∧ buf 2 = 255#8 ∧ buf 3 = 255#8

instance (r : Nat) (buf : Nat → Byte) : Decidable (Connectionless r buf) :=
  inferInstanceAs (Decidable (_ ∧ _))

/-- `netqw->challenge = challenge`. -/
def setChallenge (challenge : BitVec 32) (q : NetQW) : NetQW := { q with challenge := challenge }

/-- The challenge was accepted. -/
def enterSendconnection (q : NetQW) : NetQW := { q with state := .sendconnection, resendtime := 0 }

/-- A datagram in `state_sendchallenge`. -/
def receiveChallenge (r : Nat) (buf : Nat → Byte) (q : NetQW) : NetQW :=
  -- S2C_CHALLENGE
  if Connectionless r buf ∧ buf 4 = 0x63#8 then
    let body := (List.range (r - 5)).map fun k => buf (5 + k)
    let text := body.takeWhile (· ≠ 0#8)
    if text.length < 16 then
      (noteExtensions (body.drop (text.length + 1)) (q.setChallenge (atoi text))).enterSendconnection
    else q
  else q

/-- The string command `new`. -/
def newCommand : ReliableBuffer := ⟨[4, 0x6e, 0x65, 0x77, 0], by decide⟩

/-- The server accepted the connection. -/
def enterConnected (now : BitVec 64) (q : NetQW) : NetQW :=
  { q with
    lastmovesendtime := now - q.microsecondsperframe.setWidth 64
    movetimecounter := 0
    state := .connected }

/-- A datagram in `state_sendconnection`. -/
def receiveConnection (now : BitVec 64) (alloc : Bool) (r : Nat) (buf : Nat → Byte) (q : NetQW) :
    NetQW :=
  -- S2C_CONNECTION; A2C_PRINT and other packets are printed
  if Connectionless r buf ∧ buf 4 = 0x6a#8 then
    (if alloc then q.appendReliableBuffer newCommand else q).enterConnected now
  else q

/-- `delayuntil` of a packet that is received at the time `now`. -/
def delayUntil (now : BitVec 64) (q : NetQW) : BitVec 64 :=
  if q.lag ≠ 0#32 ∧ q.lagEzcheat = false then now + (q.lag / 2#32).setWidth 64 else 0#64

/-- The packets are written to. -/
def setNetpackets (netpackets : Nat → NetPacket) (q : NetQW) : NetQW :=
  { q with netpackets := netpackets }

/-- A packet is stored under the next number. -/
def storePacket (packet : NetPacket) (q : NetQW) : NetQW :=
  q.setNetpackets (Function.update q.netpackets q.netpacketCount packet)

/-- The new packet is handled at once. -/
def handleNow (data : List Byte) (q : NetQW) : NetQW :=
  (q.storePacket ⟨0, 1, data⟩).handleReceivedPacket data

/-- The new packet waits in the internal queue. -/
def handleLater (delayuntil : BitVec 64) (data : List Byte) (q : NetQW) : NetQW :=
  { q.storePacket ⟨delayuntil, 2, data⟩ with internalQueue := q.internalQueue ++ [q.netpacketCount] }

/-- The new packet is appended to the client packet queue. -/
def queueForClient (data : List Byte) (q : NetQW) : NetQW :=
  { q with
    clientQueue := q.clientQueue ++ [q.netpacketCount]
    netpacketCount := q.netpacketCount + 1 }.log [.accept data]

/-- A packet is accepted: it is handled now, or held back by the lag, and queued for the client. -/
def acceptPacket (now : BitVec 64) (data : List Byte) (q : NetQW) : NetQW :=
  (if q.delayUntil now = 0#64 then q.handleNow data
    else q.handleLater (q.delayUntil now) data).queueForClient data

/-- The packet is fresh, and acknowledges something that was sent. -/
def Acceptable (r : Nat) (buf : Nat → Byte) (q : NetQW) : Prop :=
  8 ≤ r ∧ q.lastIncomingSequenceNumber < number31 buf 0 ∧
    number31 buf 4 < q.currentOutgoingSequenceNumber

instance (r : Nat) (buf : Nat → Byte) (q : NetQW) : Decidable (q.Acceptable r buf) :=
  inferInstanceAs (Decidable (_ ∧ _))

/-- A datagram in `state_connected`. -/
def receivePacket (now : BitVec 64) (alloc : Bool) (r : Nat) (buf : Nat → Byte) (q : NetQW) :
    NetQW :=
  if q.Acceptable r buf ∧ alloc = true then
    q.acceptPacket now ((List.range r).map buf)
  else q

/-- One pass of the loop of `NetQW_Thread_DoReceive`, for a datagram of at most 1499 bytes. -/
def receive (env : SendEnv) (source : NetAddr) (datagram : List Byte) (q : NetQW) : NetQW :=
  let r := q.receiveBuf env.stack datagram
  if 0 < r.1 ∧ source = q.addr then
    match q.state with
    | .sendchallenge => q.receiveChallenge r.1 r.2
    | .sendconnection => q.receiveConnection env.now env.alloc r.1 r.2
    | _ => q.receivePacket env.now env.alloc r.1 r.2
  else q

/-! ## The delayed packets of `NetQW_Thread` -/

/-- "Sanity checks": if the first packet is delayed by more than a second, none is any more. -/
def clampDelays (curtime : BitVec 64) (q : NetQW) : NetQW :=
  match q.internalQueue with
  | [] => q
  | n :: _ =>
    if curtime + 1000000#64 < (q.netpackets n).delayuntil then
      q.setNetpackets fun m =>
        if m ∈ q.internalQueue then { q.netpackets m with delayuntil := curtime }
        else q.netpackets m
    else q

/-- One reference to the packet is given up. -/
def release (n : Nat) (q : NetQW) : NetQW :=
  let packet := { q.netpackets n with usecount := (q.netpackets n).usecount - 1#32 }
  (q.setNetpackets (Function.update q.netpackets n packet)).log
    (if packet.usecount = 0#32 then [.freePacket n] else [])

/-- `netqw->internalnetpackethead = ...`. -/
def setInternalQueue (queue : List Nat) (q : NetQW) : NetQW := { q with internalQueue := queue }

/-- One pass of the loop over the delayed packets, if the first one is due. -/
def handleDelayed (curtime : BitVec 64) (q : NetQW) : Option NetQW :=
  match q.internalQueue with
  | [] => none
  | n :: rest =>
    if (q.netpackets n).delayuntil ≤ curtime then
      some (((q.handleReceivedPacket (q.netpackets n).data).setInternalQueue rest).release n)
    else none

/-- The same check of the packets to be sent. -/
def clampSends (curtime : BitVec 64) (q : NetQW) : NetQW :=
  match q.sendQueue with
  | [] => q
  | packet :: _ =>
    if curtime + 1000000#64 < packet.delayuntil then
      { q with sendQueue := q.sendQueue.map fun p => { p with delayuntil := curtime } }
    else q

/-- `netqw->sendpackethead = ...`. -/
def setSendQueue (queue : List SendPacket) (q : NetQW) : NetQW := { q with sendQueue := queue }

/-- One pass of the loop over the packets to be sent, if the first one is due. -/
def sendDelayed (curtime : BitVec 64) (q : NetQW) : Option NetQW :=
  match q.sendQueue with
  | [] => none
  | packet :: rest =>
    if packet.delayuntil ≤ curtime then
      some ((q.setSendQueue rest).log [.netSend packet.data])
    else none

/-! ## What the client thread calls -/

/-- `NetQW_FreePacket`, on a queue that is not empty. -/
def freePacket (q : NetQW) : Option NetQW :=
  match q.clientQueue with
  | [] => none
  | n :: rest => some ({ q with clientQueue := rest }.release n)

/-- `NetQW_SetTeleport`; `position` are the coordinates in eighths of a unit. -/
def setTeleport (position : Fin 3 → BitVec 32) (q : NetQW) : NetQW :=
  { q with
    sendTmove := true
    tmoveBuffer := teleportBytes position }

/-- `NetQW_LockMovement` and `NetQW_UnlockMovement`. -/
def setMovementLocked (locked : Bool) (q : NetQW) : NetQW := { q with movementLocked := locked }

/-- `NetQW_SetLag`. -/
def setLag (microseconds : BitVec 32) (q : NetQW) : NetQW :=
  { q with lag := if 500000#32 < microseconds then 500000#32 else microseconds }

/-- `NetQW_SetLagEzcheat`. -/
def setLagEzcheat (enabled : Bool) (q : NetQW) : NetQW := { q with lagEzcheat := enabled }

end NetQW

end QwNet
