/-
  QwNet.Channel.Send

  `NetQW_AppendReliableBuffer`, `NetQW_Thread_SendPacket` and the pieces of
  `NetQW_Thread_DoSend`.

  A packet is built in pieces, since the client thread may run wherever the network
  thread does not hold the mutex.  The packet under construction is the list of the
  bytes written so far.
-/
import QwNet.Channel.Checksum
import QwNet.Channel.Usercmd
import QwNet.Channel.Frames

namespace QwNet

/-- An `unsigned int`, low byte first. -/
def writeLong (n : BitVec 32) : List Byte :=
  [n.setWidth 8, (n >>> 8).setWidth 8, (n >>> 16).setWidth 8, (n >>> 24).setWidth 8]

/-- `buf[i] |= bits`. -/
def orAt (buf : List Byte) (i : Nat) (bits : Byte) : List Byte := buf.set i (buf.getD i 0 ||| bits)

/-- `%08x`. -/
def hex8 (n : BitVec 32) : List Byte :=
  ((List.range 8).map fun k => (n >>> (28 - 4 * k)).setWidth 4).map fun d : BitVec 4 =>
    if d < 10#4 then 48#8 + d.setWidth 8 else 87#8 + d.setWidth 8

namespace NetQW

/-! ## `NetQW_AppendReliableBuffer` -/

/-- `NetQW_AppendReliableBuffer`, when `malloc` does not fail. -/
def appendReliableBuffer (buffer : ReliableBuffer) (q : NetQW) : NetQW :=
  { q with reliableQueue := q.reliableQueue ++ [buffer] }.log [.append buffer]

/-! ## `NetQW_Thread_SendPacket` -/

/-- `NetQW_Thread_QueuePacket` at the time `now`, when `malloc` does not fail. -/
def queuePacket (now : BitVec 64) (buf : List Byte) (q : NetQW) : NetQW :=
  let lag := if q.lagEzcheat then q.lag else q.lag / 2#32
  { q with sendQueue := q.sendQueue ++ [⟨now + lag.setWidth 64, buf⟩] }

/-- What `NetQW_Thread_SendPacket` depends on besides the object: the time, whether
    `malloc` succeeds, and what is on the stack. -/
structure SendEnv where
  now : BitVec 64
  alloc : Bool
  stack : Nat → Byte

/-- The packet is sent, or held back by the lag. -/
def sendOrQueue (env : SendEnv) (buf : List Byte) (force : Bool) (q : NetQW) : NetQW :=
  if q.lag ≠ 0#32 ∧ force = false then
    if env.alloc then q.queuePacket env.now buf else q
  else
    q.log [.netSend buf]

/-- `compressedbuf`: ten bytes of header and what `Huff_CompressPacket` makes of the rest;
    with it comes the return value. -/
def compress (stack : Nat → Byte) (ht : HuffTables) (buf : List Byte) : Nat × OutBuf :=
  huffCompressPacket ht (buf.drop 10)
    ((⟨stack, []⟩ : OutBuf).memcpy 0 (fun i => buf.getD i 0) 10) 10 (1500 - 10)

/-- `NetQW_Thread_SendPacket`. -/
def sendPacket (env : SendEnv) (buf : List Byte) (force : Bool) (q : NetQW) : NetQW :=
  if 1500 ≤ buf.length then q
  else
    match q.huffcontext with
    | some ht =>
      let r := compress env.stack ht buf
      -- "Huffman coding failed"
      if r.1 = 0 then q
      else q.sendOrQueue env ((List.range (r.1 + 10)).map r.2.mem) force
    | none => q.sendOrQueue env buf force

/-! ## One packet of `NetQW_Thread_DoSend` -/

/-- The sequence number, the acknowledge number with the reliable bit, and the qport. -/
def header (q : NetQW) : List Byte :=
  orAt (writeLong q.currentOutgoingSequenceNumber ++ writeLong q.lastIncomingSequenceNumber) 7
    (q.outgoingReliableXor <<< 7 |>.setWidth 8) ++ writeShort q.qport

/-- The command in the ring `k` packets before the current one. -/
def recentCmd (k : BitVec 32) (q : NetQW) : Usercmd :=
  (q.frames (slot (q.currentOutgoingSequenceNumber - k))).cmd

/-- `clc_move` behind its checksum: the packet loss and three commands. -/
def moveData (angle16 : BitVec 32 → BitVec 16) (q : NetQW) : List Byte :=
  q.packetloss :: (writeDeltaUsercmd angle16 zerocmd (q.recentCmd 2)
    ++ writeDeltaUsercmd angle16 (q.recentCmd 2) (q.recentCmd 1)
    ++ writeDeltaUsercmd angle16 (q.recentCmd 1) (q.recentCmd 0))

/-- The packet up to the end of `clc_move`. -/
def beginPacket (angle16 : BitVec 32 → BitVec 16) (q : NetQW) : List Byte :=
  let move := q.moveData angle16
  q.header ++ 3#8 :: comBlockSequenceCRCByte move q.currentOutgoingSequenceNumber :: move

/-- The three commands are read. -/
def logBuild (q : NetQW) : NetQW :=
  q.log [.build q.currentOutgoingSequenceNumber (q.recentCmd 2) (q.recentCmd 1) (q.recentCmd 0)]

/-- What `clc_delta` requests for the current packet. -/
def deltaRequest (q : NetQW) : Option Byte :=
  let delta := (q.frames (slot q.currentOutgoingSequenceNumber)).deltaSequence
  if delta ≠ -1#32 then some (delta.setWidth 8) else none

/-- `clc_delta`. -/
def deltaBytes (q : NetQW) : List Byte :=
  match q.deltaRequest with
  | some request => [5, request]
  | none => []

/-- The delta request is read. -/
def logDelta (q : NetQW) : NetQW := q.log [.delta q.currentOutgoingSequenceNumber q.deltaRequest]

/-- `clc_tmove`. -/
def tmoveBytes (q : NetQW) : List Byte :=
  if q.sendTmove then 6 :: List.ofFn q.tmoveBuffer else []

/-- `netqw->send_tmove = 0`, if there was a teleport. -/
def clearTmove (q : NetQW) : NetQW := { q with sendTmove := false }

/-- The loop over the reliable buffers: those that are copied into a packet of `i` bytes. -/
def fitting : Nat → List ReliableBuffer → List ReliableBuffer
  | _, [] => []
  | i, b :: rest =>
    if (i + b.data.length) % 2 ^ 32 < 1450 then
      b :: fitting ((i + b.data.length) % 2 ^ 32) rest
    else []

/-- The reliable buffers that the current packet of `i` bytes takes: none while some are
    unacknowledged. -/
def reliables (i : Nat) (q : NetQW) : List ReliableBuffer :=
  if q.reliableBuffersSent = 0#32 then fitting i q.reliableQueue else []

/-- `j`, the number of buffers in the packet. -/
def reliableCount (i : Nat) (q : NetQW) : BitVec 32 := BitVec.ofNat 32 (q.reliables i).length

/-- The packet with its reliable buffers, marked if there are any. -/
def appendReliables (buf : List Byte) (q : NetQW) : List Byte :=
  let buf' := buf ++ (q.reliables buf.length).flatMap ReliableBuffer.data
  if q.reliableCount buf.length ≠ 0#32 then orAt buf' 3 0x80 else buf'

/-- Sent buffers are remembered until they are acknowledged. -/
def rememberReliables (i : Nat) (q : NetQW) : NetQW :=
  if q.reliableCount i ≠ 0#32 then
    { q with
      reliableBuffersSent := q.reliableCount i
      reliableSequenceNumber := q.currentOutgoingSequenceNumber
      incomingReliableXor := q.incomingReliableXor ^^^ 1#32 }
  else q

@[simp] theorem rememberReliables_trace (i : Nat) (q : NetQW) :
    (q.rememberReliables i).trace = q.trace := by
  unfold rememberReliables
  split <;> rfl

@[simp] theorem rememberReliables_queue (i : Nat) (q : NetQW) :
    (q.rememberReliables i).reliableQueue = q.reliableQueue := by
  unfold rememberReliables
  split <;> rfl

@[simp] theorem rememberReliables_current (i : Nat) (q : NetQW) :
    (q.rememberReliables i).currentOutgoingSequenceNumber = q.currentOutgoingSequenceNumber := by
  unfold rememberReliables
  split <;> rfl

/-- The packet is handed to `NetQW_Thread_SendPacket`. -/
def submitPacket (env : SendEnv) (buf : List Byte) (reliable : List ReliableBuffer) (q : NetQW) :
    NetQW :=
  (q.log [.sendPacket buf reliable]).sendPacket env buf false

/-- No reply to the current packet was received yet. -/
def awaitReply (q : NetQW) : NetQW :=
  { q with replyreceived :=
    Function.update q.replyreceived (q.currentOutgoingSequenceNumber.toNat % 200) 0 }

/-- The packet has been sent. -/
def finishPacket (q : NetQW) : NetQW :=
  { q with
    lastsentframe := q.lastsentframe + 1#32
    framestosend := q.framestosend - 1#32
    currentOutgoingSequenceNumber := q.currentOutgoingSequenceNumber + 1#32 }.log
    [.sent q.currentOutgoingSequenceNumber]

/-! ## The rest of `NetQW_Thread_DoSend` -/

/-- "Just to avoid catastrophy with buggy `Sys_IntTime` implementations". -/
def clampMoveTime (curtime : BitVec 64) (q : NetQW) : NetQW :=
  if q.lastmovesendtime + 1000000#64 < curtime then { q with lastmovesendtime := curtime } else q

/-- The line that asks for a connection. -/
def connectLine (q : NetQW) : List Byte :=
  List.replicate 4 0xff#8 ++ ascii "connect 28 " ++ decimal (q.qport.setWidth 32) ++ ascii " "
    ++ decimal q.challenge ++ ascii " \"" ++ q.userinfo ++ ascii "\"\n"

/-- The line that announces Huffman coding. -/
def huffmanLine (q : NetQW) : List Byte :=
  ascii "0x" ++ hex8 0x46465548#32 ++ ascii " 0x" ++ hex8 q.huffcrc ++ ascii "\n"

/-- The connect request: its length and the buffer, while printing does not overrun `buf`. -/
def connectRequest (stack : Nat → Byte) (q : NetQW) : Nat × OutBuf :=
  let i := q.connectLine.length
  let buf := snprintfString ⟨stack, []⟩ 0 1500 q.connectLine
  if q.huffcontext.isSome then
    -- `sizeof(buf) - i` is a `size_t`
    let room := (1500 + 2 ^ 64 - i) % 2 ^ 64
    (i + q.huffmanLine.length, snprintfString buf i room q.huffmanLine)
  else (i, buf)

/-- The connect request is sent, if it fits into its buffer. -/
def sendConnectRequest (stack : Nat → Byte) (q : NetQW) : NetQW :=
  let r := q.connectRequest stack
  if r.1 < 1500 then q.log [.netSend ((List.range r.1).map r.2.mem)] else q

/-- `getchallenge`. -/
def getchallenge : List Byte := List.replicate 4 0xff#8 ++ ascii "getchallenge\n"

/-- `netqw->resendtime = resendtime`. -/
def setResendtime (resendtime : BitVec 64) (q : NetQW) : NetQW := { q with resendtime := resendtime }

/-- The branch of `NetQW_Thread_DoSend` for a client that is not connected. -/
def resend (curtime : BitVec 64) (stack : Nat → Byte) (q : NetQW) : NetQW :=
  if q.resendtime ≤ curtime then
    (if q.state = .sendchallenge then q.log [.netSend getchallenge]
      else q.sendConnectRequest stack).setResendtime (curtime + 3000000#64)
  else q

end NetQW

end QwNet
