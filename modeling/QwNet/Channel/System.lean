/-
  QwNet.Channel.System

  The client as a system of two threads.

  A step is a section that holds the mutex, or a stretch of the network thread
  between two of them.  The label carries what the environment decides: clock
  readings, datagrams, the arguments of the application's calls.  Steps of the
  client thread may come anywhere; those of the network thread follow
  `NetQW_Thread_DoSend`, whose place and local variables are the program counter.

  `NetQW_Thread_HandleReceivedPacket`, which frees commands and repairs the tail of
  their queue without the mutex, is part of one step here; the module `FreeingLoop`
  takes its loop apart.
-/
import QwNet.Channel.Receive
import QwNet.Lib.Transition

namespace QwNet

/-- Where the network thread is in `NetQW_Thread_DoSend`.  `buf` is the packet as far as it
    was built, `reliable` what it carries. -/
inductive SendPc where
  /-- Outside. -/
  | idle
  /-- Before the call of `NetQW_GenerateFrames`. -/
  | generate
  /-- At the head of the loop over the frames to be sent. -/
  | loop
  /-- Before `clc_delta`. -/
  | delta (buf : List Byte)
  /-- Before `clc_tmove`. -/
  | tmove (buf : List Byte)
  /-- Before the reliable buffers. -/
  | reliable (buf : List Byte)
  /-- Before the call of `NetQW_Thread_SendPacket`. -/
  | submit (buf : List Byte) (reliable : List ReliableBuffer)
  /-- Before the counters move on. -/
  | finish

/-- The client: the object and the place of the network thread. -/
structure Client where
  netqw : NetQW
  pc : SendPc

/-- A step of one of the threads. -/
inductive Action where
  -- the client thread
  | setFPS (fps : BitVec 32)
  | append (buffer : ReliableBuffer)
  | generate (curtime : BitVec 64) (senttime : Nat → BitVec 64) (fuel : Nat)
  | copyFrames
  | setDeltaPoint (deltaSequenceNumber : BitVec 32)
  | setTeleport (position : Fin 3 → BitVec 32)
  | setMovementLocked (locked : Bool)
  | setLag (microseconds : BitVec 32)
  | setLagEzcheat (enabled : Bool)
  | freePacket
  -- the network thread outside `NetQW_Thread_DoSend`
  | clampDelays (curtime : BitVec 64)
  | handleDelayed (curtime : BitVec 64)
  | clampSends (curtime : BitVec 64)
  | sendDelayed (curtime : BitVec 64)
  | receive (env : NetQW.SendEnv) (source : NetAddr) (datagram : List Byte)
  -- the network thread inside it
  | beginSend (curtime : BitVec 64) (stack : Nat → Byte)
  | netGenerate (curtime : BitVec 64) (senttime : Nat → BitVec 64) (fuel : Nat)
  | endSend
  | buildPacket
  | addDelta
  | addTmove
  | addReliables
  | submitPacket (env : NetQW.SendEnv)
  | finishPacket

namespace Client

/-- The object changes, the network thread stays where it is. -/
def update (c : Client) (f : NetQW → NetQW) : Client := { c with netqw := f c.netqw }

/-- A step of the network thread outside `NetQW_Thread_DoSend`. -/
def outside (c : Client) (f : NetQW → Option NetQW) : Option Client :=
  match c.pc with
  | .idle => (f c.netqw).map fun q => { c with netqw := q }
  | _ => none

/-- The network thread enters `NetQW_Thread_DoSend`. -/
def beginSend (curtime : BitVec 64) (stack : Nat → Byte) (c : Client) : Option Client :=
  match c.pc with
  | .idle =>
    let q := c.netqw.clampMoveTime curtime
    if q.state = .connected then some ⟨q, .generate⟩ else some ⟨q.resend curtime stack, .idle⟩
  | _ => none

/-- The network thread's call of `NetQW_GenerateFrames`. -/
def netGenerate (curtime : BitVec 64) (senttime : Nat → BitVec 64) (fuel : Nat) (c : Client) :
    Option Client :=
  match c.pc with
  | .generate => ((generateFrames curtime senttime fuel).exec c.netqw).map fun q => ⟨q, .loop⟩
  | _ => none

/-- There is nothing left to send. -/
def endSend (c : Client) : Option Client :=
  match c.pc with
  | .loop => if c.netqw.framestosend = 0#32 then some { c with pc := .idle } else none
  | _ => none

/-- The packet is begun: the header and the commands are read.  The source reads the slots of the
    three commands without the mutex; here they are read in one step. -/
def buildPacket (angle16 : BitVec 32 → BitVec 16) (c : Client) : Option Client :=
  match c.pc with
  | .loop =>
    if c.netqw.framestosend = 0#32 then none
    else some ⟨c.netqw.logBuild, .delta (c.netqw.beginPacket angle16)⟩
  | _ => none

/-- The delta request is read and written. -/
def addDelta (c : Client) : Option Client :=
  match c.pc with
  | .delta buf => some ⟨c.netqw.logDelta, .tmove (buf ++ c.netqw.deltaBytes)⟩
  | _ => none

/-- A teleport is written. -/
def addTmove (c : Client) : Option Client :=
  match c.pc with
  | .tmove buf => some ⟨c.netqw.clearTmove, .reliable (buf ++ c.netqw.tmoveBytes)⟩
  | _ => none

/-- Reliable buffers are copied, and remembered as sent. -/
def addReliables (c : Client) : Option Client :=
  match c.pc with
  | .reliable buf => some ⟨c.netqw.rememberReliables buf.length,
      .submit (c.netqw.appendReliables buf) (c.netqw.reliables buf.length)⟩
  | _ => none

/-- The packet is sent. -/
def submitPacket (env : NetQW.SendEnv) (c : Client) : Option Client :=
  match c.pc with
  | .submit buf reliable => some ⟨(c.netqw.submitPacket env buf reliable).awaitReply, .finish⟩
  | _ => none

/-- The counters move on. -/
def finishPacket (c : Client) : Option Client :=
  match c.pc with
  | .finish => some ⟨c.netqw.finishPacket, .loop⟩
  | _ => none

/-- What an action does; `none` if it is not enabled or never returns. -/
def step (angle16 : BitVec 32 → BitVec 16) (a : Action) (c : Client) : Option Client :=
  match a with
  | .setFPS fps => some (c.update (.setFPS fps))
  | .append buffer => some (c.update (.appendReliableBuffer buffer))
  | .generate curtime senttime fuel =>
    ((generateFrames curtime senttime fuel).exec c.netqw).map fun q => { c with netqw := q }
  | .copyFrames => some (c.update .copyFrames)
  | .setDeltaPoint n => some (c.update (.setDeltaPoint n))
  | .setTeleport position => some (c.update (.setTeleport position))
  | .setMovementLocked locked => some (c.update (.setMovementLocked locked))
  | .setLag microseconds => some (c.update (.setLag microseconds))
  | .setLagEzcheat enabled => some (c.update (.setLagEzcheat enabled))
  | .freePacket => c.netqw.freePacket.map fun q => { c with netqw := q }
  | .clampDelays curtime => c.outside fun q => some (q.clampDelays curtime)
  | .handleDelayed curtime => c.outside (NetQW.handleDelayed curtime)
  | .clampSends curtime => c.outside fun q => some (q.clampSends curtime)
  | .sendDelayed curtime => c.outside (NetQW.sendDelayed curtime)
  | .receive env source datagram => c.outside fun q => some (q.receive env source datagram)
  | .beginSend curtime stack => c.beginSend curtime stack
  | .netGenerate curtime senttime fuel => c.netGenerate curtime senttime fuel
  | .endSend => c.endSend
  | .buildPacket => c.buildPacket angle16
  | .addDelta => c.addDelta
  | .addTmove => c.addTmove
  | .addReliables => c.addReliables
  | .submitPacket env => c.submitPacket env
  | .finishPacket => c.finishPacket

/-- The client after `NetQW_Create` and `NetQW_Thread_Init`. -/
def Init (c : Client) : Prop :=
  ∃ garbage qport userinfo addr, c = ⟨(NetQW.create garbage qport userinfo).threadInit addr, .idle⟩

/-- The client as a system. -/
def system (angle16 : BitVec 32 → BitVec 16) : Transitions Client Action where
  Init := Init
  step := step angle16

/-! ## What the steps can do -/

section Steps

variable {angle16 : BitVec 32 → BitVec 16} {c c' : Client}

theorem outside_spec {f : NetQW → Option NetQW} (h : c.outside f = some c') :
    c.pc = .idle ∧ ∃ q, f c.netqw = some q ∧ c' = ⟨q, .idle⟩ := by
  unfold outside at h
  split at h
  · rename_i hpc
    obtain ⟨q, hq, rfl⟩ := Option.map_eq_some_iff.mp h
    exact ⟨hpc, q, hq, by rw [hpc]⟩
  · exact nomatch h

theorem beginSend_spec {curtime : BitVec 64} {stack : Nat → Byte}
    (h : c.beginSend curtime stack = some c') : c.pc = .idle ∧
      c' = (if (c.netqw.clampMoveTime curtime).state = .connected then
        ⟨c.netqw.clampMoveTime curtime, .generate⟩
      else ⟨(c.netqw.clampMoveTime curtime).resend curtime stack, .idle⟩) := by
  unfold beginSend at h
  split at h
  · refine ⟨‹_›, ?_⟩
    dsimp only at h
    split at h
    · rename_i hstate
      rw [if_pos hstate]
      exact (Option.some.inj h).symm
    · rename_i hstate
      rw [if_neg hstate]
      exact (Option.some.inj h).symm
  · exact nomatch h

theorem netGenerate_spec {curtime : BitVec 64} {senttime : Nat → BitVec 64} {fuel : Nat}
    (h : c.netGenerate curtime senttime fuel = some c') : c.pc = .generate ∧
      ∃ q, (generateFrames curtime senttime fuel).exec c.netqw = some q ∧ c' = ⟨q, .loop⟩ := by
  unfold netGenerate at h
  split at h
  · obtain ⟨q, hq, rfl⟩ := Option.map_eq_some_iff.mp h
    exact ⟨‹_›, q, hq, rfl⟩
  · exact nomatch h

theorem endSend_spec (h : c.endSend = some c') :
    c.pc = .loop ∧ c.netqw.framestosend = 0#32 ∧ c' = ⟨c.netqw, .idle⟩ := by
  unfold endSend at h
  split at h
  · split at h
    · exact ⟨‹_›, ‹_›, (Option.some.inj h).symm⟩
    · exact nomatch h
  · exact nomatch h

theorem buildPacket_spec (h : c.buildPacket angle16 = some c') :
    c.pc = .loop ∧ c.netqw.framestosend ≠ 0#32 ∧
      c' = ⟨c.netqw.logBuild, .delta (c.netqw.beginPacket angle16)⟩ := by
  unfold buildPacket at h
  split at h
  · split at h
    · exact nomatch h
    · exact ⟨‹_›, ‹_›, (Option.some.inj h).symm⟩
  · exact nomatch h

theorem addDelta_spec (h : c.addDelta = some c') : ∃ buf, c.pc = .delta buf ∧
    c' = ⟨c.netqw.logDelta, .tmove (buf ++ c.netqw.deltaBytes)⟩ := by
  unfold addDelta at h
  split at h
  · exact ⟨_, ‹_›, (Option.some.inj h).symm⟩
  · exact nomatch h

theorem addTmove_spec (h : c.addTmove = some c') : ∃ buf, c.pc = .tmove buf ∧
    c' = ⟨c.netqw.clearTmove, .reliable (buf ++ c.netqw.tmoveBytes)⟩ := by
  unfold addTmove at h
  split at h
  · exact ⟨_, ‹_›, (Option.some.inj h).symm⟩
  · exact nomatch h

theorem addReliables_spec (h : c.addReliables = some c') : ∃ buf, c.pc = .reliable buf ∧
    c' = ⟨c.netqw.rememberReliables buf.length,
      .submit (c.netqw.appendReliables buf) (c.netqw.reliables buf.length)⟩ := by
  unfold addReliables at h
  split at h
  · exact ⟨_, ‹_›, (Option.some.inj h).symm⟩
  · exact nomatch h

theorem submitPacket_spec {env : NetQW.SendEnv} (h : c.submitPacket env = some c') :
    ∃ buf reliable, c.pc = .submit buf reliable ∧
      c' = ⟨(c.netqw.submitPacket env buf reliable).awaitReply, .finish⟩ := by
  unfold submitPacket at h
  split at h
  · exact ⟨_, _, ‹_›, (Option.some.inj h).symm⟩
  · exact nomatch h

theorem finishPacket_spec (h : c.finishPacket = some c') :
    c.pc = .finish ∧ c' = ⟨c.netqw.finishPacket, .loop⟩ := by
  unfold finishPacket at h
  split at h
  · exact ⟨‹_›, (Option.some.inj h).symm⟩
  · exact nomatch h

end Steps

end Client

end QwNet
