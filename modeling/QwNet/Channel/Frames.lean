/-
  QwNet.Channel.Frames

  The ring of generated frames: `NetQW_GenerateFrames`, `NetQW_CopyFrames` and
  `NetQW_SetDeltaPoint`.
-/
import Mathlib.Logic.Function.Iterate
import QwNet.Channel.NetQW

namespace QwNet

namespace NetQW

/-! ## `NetQW_GenerateFrames` -/

/-- Both clocks move on by one frame. -/
def tick (q : NetQW) : NetQW :=
  { q with
    lastmovesendtime := q.lastmovesendtime + q.microsecondsperframe.setWidth 64
    movetimecounter := q.movetimecounter + q.microsecondsperframe.setWidth 64 }

/-- The command of the next frame: nothing moves but the time. -/
def nextCmd (q : NetQW) : Usercmd :=
  { zerocmd with msec := (q.movetimecounter / 1000#64).setWidth 8 }

/-- `hej`, with the movement taken out if it is locked. -/
def lockedCmd (q : NetQW) : Usercmd :=
  if q.movementLocked then { q.nextCmd with forwardmove := 0, sidemove := 0, upmove := 0 }
  else q.nextCmd

/-- The milliseconds that went into the command are taken off the counter. -/
def takeMsec (q : NetQW) : NetQW := { q with movetimecounter := q.movetimecounter % 1000#64 }

/-- `framenum`. -/
def framenum (q : NetQW) : Slot := slot (q.lastsentframe + q.framestosend + 1#32)

/-- The new frame is stored, without a delta request. -/
def storeFrame (cmd : Usercmd) (senttime : BitVec 64) (q : NetQW) : NetQW :=
  { q with frames := Function.update q.frames q.framenum ⟨cmd, senttime, -1#32⟩ }.log
    [.generate q.framenum cmd senttime]

/-- The delta point is known and recent. -/
def DeltaPointRecent (q : NetQW) : Prop :=
  q.lastReceivedEntityUpdateFrame ≠ -1#32 ∧
    q.currentOutgoingSequenceNumber - q.lastReceivedEntityUpdateFrame < 64#32

instance (q : NetQW) : Decidable q.DeltaPointRecent := inferInstanceAs (Decidable (_ ∧ _))

/-- The delta point is requested in the entry of the current sequence number. -/
def requestDelta (q : NetQW) : NetQW :=
  let i := slot q.currentOutgoingSequenceNumber
  let frame := { q.frames i with deltaSequence := q.lastReceivedEntityUpdateFrame }
  if q.DeltaPointRecent then { q with frames := Function.update q.frames i frame } else q

/-- There is one more frame to send and to copy. -/
def countFrame (q : NetQW) : NetQW :=
  { q with framestosend := q.framestosend + 1#32, framestocopy := q.framestocopy + 1#32 }

/-- One pass of the loop of `NetQW_GenerateFrames`. -/
def generateFrame (senttime : BitVec 64) (q : NetQW) : NetQW :=
  let q := q.tick
  let cmd := q.lockedCmd
  (q.takeMsec.storeFrame cmd senttime).requestDelta.countFrame

end NetQW

/-- A generated frame: its index, command and time. -/
@[simp] def NetEvent.generated? : NetEvent → Option (Slot × Usercmd × BitVec 64)
  | .generate slot cmd senttime => some (slot, cmd, senttime)
  | _ => none

/-- The frames generated so far, oldest first. -/
def generated (trace : List NetEvent) : List (Slot × Usercmd × BitVec 64) :=
  trace.filterMap NetEvent.generated?

/-- One pass of the loop of `NetQW_GenerateFrames`, or its end.  `senttime` gives the reading
    of `Sys_DoubleTime` for every frame ever generated. -/
def generatePass (curtime : BitVec 64) (senttime : Nat → BitVec 64) : RunM NetQW (Option Unit) := do
  let q ← RunM.get
  if q.lastmovesendtime + q.microsecondsperframe.setWidth 64 ≤ curtime then do
    RunM.modify (NetQW.generateFrame (senttime (generated q.trace).length))
    pure none
  else
    pure (some ())

/-- `NetQW_GenerateFrames`, called when `Sys_IntTime` is `curtime`. -/
def generateFrames (curtime : BitVec 64) (senttime : Nat → BitVec 64) (fuel : Nat) :
    RunM NetQW Unit := do
  let q ← RunM.get
  if q.state ≠ .connected then
    pure ()
  else
    RunM.loop (generatePass curtime senttime) fuel

namespace NetQW

/-! ## `NetQW_CopyFrames` and `NetQW_SetDeltaPoint` -/

/-- One pass of the loop of `NetQW_CopyFrames`. -/
def copyFrame (q : NetQW) : NetQW :=
  let last := (q.lastcopiedframe + 1#32) &&& updateMask
  { q with lastcopiedframe := last, framestocopy := q.framestocopy - 1#32 }.log
    [.copy (slot last) (q.frames (slot last))]

/-- `NetQW_CopyFrames`: its loop counts `framestocopy` down to zero. -/
def copyFrames (q : NetQW) : NetQW :=
  let startframe := (q.lastcopiedframe + 1#32) &&& updateMask
  let framecount := q.framestocopy
  let q := copyFrame^[framecount.toNat] q
  q.log [.copied (q.currentOutgoingSequenceNumber + q.framestosend) startframe framecount]

/-- `NetQW_SetDeltaPoint`. -/
def setDeltaPoint (deltaSequenceNumber : BitVec 32) (q : NetQW) : NetQW :=
  { q with lastReceivedEntityUpdateFrame := deltaSequenceNumber }

end NetQW

end QwNet
