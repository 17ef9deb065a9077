/-
  QwNet.Channel.NetQW

  `struct NetQW` of netqw.c.

  Queues are lists, head first.  A ring of `UPDATE_BACKUP` entries is indexed by six
  bits, so `n & UPDATE_MASK` is the only way to make an index.  Received packets are
  shared between two queues, which hold their numbers.

  The state keeps a trace of what the code does to the world outside it; the code
  never reads the trace.
-/
import QwNet.Huffman.Codec
import QwNet.Lib.RunM

namespace QwNet

/-! ## Frames -/

/-- `usercmd_t`; the angles are the bit patterns of the floats. -/
structure Usercmd where
  msec : Byte
  angles : Fin 3 → BitVec 32
  forwardmove : BitVec 16
  sidemove : BitVec 16
  upmove : BitVec 16
  buttons : Byte
  impulse : Byte
  deriving Inhabited

/-- `zerocmd`. -/
def zerocmd : Usercmd := ⟨0, fun _ => 0, 0, 0, 0, 0, 0⟩

/-- An entry of `frames`; `senttime` is the bit pattern of the double. -/
structure RingFrame where
  cmd : Usercmd
  senttime : BitVec 64
  deltaSequence : BitVec 32
  deriving Inhabited

/-- An index into a ring of `UPDATE_BACKUP` entries. -/
abbrev Slot := BitVec 6

/-- `n & UPDATE_MASK` as an index. -/
def slot (n : BitVec 32) : Slot := n.setWidth 6

/-! ## Packets -/

/-- A reliable buffer: its length is an `unsigned int`. -/
structure ReliableBuffer where
  data : List Byte
  length_lt : data.length < 2 ^ 32

/-- `struct NetPacket`: a packet received, and the number of queues it is in. -/
structure NetPacket where
  delayuntil : BitVec 64
  usecount : BitVec 32
  data : List Byte
  deriving Inhabited

/-- `struct SendPacket`: a packet sent, held back by the lag. -/
structure SendPacket where
  delayuntil : BitVec 64
  data : List Byte

/-- `struct netaddr`. -/
inductive NetAddr where
  | loopback
  | ipv4 (address : BitVec 32) (port : BitVec 16)
  | ipv6 (address : BitVec 128) (port : BitVec 16)
  deriving DecidableEq, Inhabited

/-- `enum state`. -/
inductive ConnState where
  | uninitialised
  | sendchallenge
  | sendconnection
  | connected
  deriving DecidableEq, Repr, Inhabited

/-! ## The object -/

/-- What the code does to the world outside the object. -/
inductive NetEvent where
  /-- A frame was generated into `slot`. -/
  | generate (slot : Slot) (cmd : Usercmd) (senttime : BitVec 64)
  /-- `NetQW_CopyFrames` copied `frame` into the client's ring. -/
  | copy (slot : Slot) (frame : RingFrame)
  /-- `NetQW_CopyFrames` returned. -/
  | copied (newseqnr startframe numframes : BitVec 32)
  /-- Packet `sequence` was begun with these entries of the ring. -/
  | build (sequence : BitVec 32) (cmd₂ cmd₁ cmd₀ : Usercmd)
  /-- Packet `sequence` carries this `clc_delta`. -/
  | delta (sequence : BitVec 32) (request : Option Byte)
  /-- The counters moved past packet `sequence`. -/
  | sent (sequence : BitVec 32)
  /-- `NetQW_Thread_SendPacket` was given `buf`, which ends with `reliable`. -/
  | sendPacket (buf : List Byte) (reliable : List ReliableBuffer)
  /-- `Sys_Net_Send`. -/
  | netSend (data : List Byte)
  /-- A reliable buffer was appended to the queue. -/
  | append (buffer : ReliableBuffer)
  /-- A reliable buffer was freed. -/
  | free (buffer : ReliableBuffer)
  /-- A packet was appended to the client packet queue. -/
  | accept (data : List Byte)
  /-- `NetQW_Thread_HandleReceivedPacket` was called. -/
  | handle (data : List Byte)
  /-- A packet was freed. -/
  | freePacket (number : Nat)
  /-- A `NULL` pointer was followed. -/
  | fault

/-- `struct NetQW`, without what only the operating system uses. -/
structure NetQW where
  qport : BitVec 16
  challenge : BitVec 32
  resendtime : BitVec 64
  packetloss : Byte
  userinfo : List Byte
  addr : NetAddr
  currentOutgoingSequenceNumber : BitVec 32
  lastIncomingSequenceNumber : BitVec 32
  reliableBuffersSent : BitVec 32
  reliableSequenceNumber : BitVec 32
  outgoingReliableXor : BitVec 32
  incomingReliableXor : BitVec 32
  replyreceived : Nat → Byte
  huffcontext : Option HuffTables
  huffcrc : BitVec 32
  /-- All packets received so far, by their number. -/
  netpackets : Nat → NetPacket
  netpacketCount : Nat
  internalQueue : List Nat
  sendQueue : List SendPacket
  state : ConnState
  microsecondsperframe : BitVec 32
  lastmovesendtime : BitVec 64
  movetimecounter : BitVec 64
  sendTmove : Bool
  tmoveBuffer : Fin 6 → Byte
  movementLocked : Bool
  lag : BitVec 32
  lagEzcheat : Bool
  reliableQueue : List ReliableBuffer
  clientQueue : List Nat
  frames : Slot → RingFrame
  lastsentframe : BitVec 32
  framestosend : BitVec 32
  lastcopiedframe : BitVec 32
  framestocopy : BitVec 32
  lastReceivedEntityUpdateFrame : BitVec 32
  trace : List NetEvent
  deriving Inhabited

namespace NetQW

/-- `es` happens. -/
def log (es : List NetEvent) (q : NetQW) : NetQW := { q with trace := q.trace ++ es }

@[simp] theorem log_trace (es : List NetEvent) (q : NetQW) : (q.log es).trace = q.trace ++ es := rfl

/-- The interval between two frames in microseconds, at least one millisecond and clamped
    to whole ones. -/
def framePeriod (fps : BitVec 32) : BitVec 32 :=
  let period := 1000000#32 / fps
  let period := if period < 1000#32 then 1000#32 else period
  let period := period + 999#32
  period - period % 1000#32

/-- `netqw->microsecondsperframe = period`. -/
def setPeriod (period : BitVec 32) (q : NetQW) : NetQW := { q with microsecondsperframe := period }

/-- `NetQW_SetFPS`. -/
def setFPS (fps : BitVec 32) (q : NetQW) : NetQW :=
  if fps ≠ 0#32 then q.setPeriod (framePeriod fps) else q

/-- `NetQW_Create` up to the start of the thread; `garbage` is what `malloc` returned.  The
    numbering of packets and the trace begin here. -/
def create (garbage : NetQW) (qport : BitVec 16) (userinfo : List Byte) : NetQW :=
  let q := setFPS 72#32 { garbage with
    qport := qport
    reliableBuffersSent := 0
    reliableQueue := []
    clientQueue := []
    internalQueue := []
    sendQueue := []
    packetloss := 0
    state := .uninitialised
    lastsentframe := 0
    framestosend := 0
    lastcopiedframe := 0
    framestocopy := 0
    lastReceivedEntityUpdateFrame := -1
    frames := fun _ => ⟨zerocmd, 0, 0⟩ }
  { q with
    huffcontext := none
    sendTmove := false
    movementLocked := false
    lag := 0
    lagEzcheat := false
    lastmovesendtime := 0
    userinfo := userinfo
    netpacketCount := 0
    trace := [] }

/-- `NetQW_Thread_Init` once the address was resolved and the socket created. -/
def threadInit (addr : NetAddr) (q : NetQW) : NetQW :=
  { q with
    addr := addr
    resendtime := 0
    state := .sendchallenge
    currentOutgoingSequenceNumber := 1
    lastIncomingSequenceNumber := 0
    incomingReliableXor := 0
    outgoingReliableXor := 0 }

end NetQW

end QwNet
