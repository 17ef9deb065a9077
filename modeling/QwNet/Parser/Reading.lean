/-
  QwNet.Parser.Reading

  The readers of message_reading.c.

  A checked reader compares the cursor plus its size, in 32-bit arithmetic, with
  `cursize`; when the read is short it sets `msg_badread`, leaves the cursor alone
  and returns -1.  `MSG_ReadFloat` does not look at `cursize` at all.
-/
import QwNet.Parser.Connection

namespace QwNet

/-- `data[msg_readcount + k]`. -/
def Message.at (msg : Message) (readcount : BitVec 32) (k : Nat) : Byte :=
  msg.data (readcount + BitVec.ofNat 32 k).toNat

/-- `msg_readcount + size <= cursize`. -/
def Message.Fits (msg : Message) (readcount : BitVec 32) (size : Nat) : Prop :=
  (readcount + BitVec.ofNat 32 size).toNat ≤ msg.cursize

instance (msg : Message) (readcount : BitVec 32) (size : Nat) :
    Decidable (msg.Fits readcount size) :=
  inferInstanceAs (Decidable (_ ≤ _))

/-- The accesses to `size` bytes from the cursor on. -/
def derefs (readcount : BitVec 32) (size : Nat) : List Event :=
  (List.range size).map fun k => .deref (readcount + BitVec.ofNat 32 k).toNat

/-- `size` bytes are read and the cursor moves past them. -/
def QwConnection.advance (size : Nat) (q : QwConnection) : QwConnection :=
  { q with msgReadcount := q.msgReadcount + BitVec.ofNat 32 size }.log (derefs q.msgReadcount size)

/-- `qwc->msg_badread = true`. -/
def QwConnection.markBadread (q : QwConnection) : QwConnection := { q with msgBadread := true }

/-- The checked readers: `value` is made of the bytes at the cursor. -/
def msgRead (msg : Message) (size : Nat) (value : (Nat → Byte) → BitVec 32) :
    Parser (BitVec 32) := fun q =>
  if msg.Fits q.msgReadcount size then
    (some (value (msg.at q.msgReadcount)), q.advance size)
  else
    (some (-1#32), q.markBadread)

/-- `MSG_ReadLong`. -/
def msgReadLong (msg : Message) : Parser (BitVec 32) :=
  msgRead msg 4 fun data => data 3 ++ data 2 ++ data 1 ++ data 0

/-- `MSG_ReadShort`. -/
def msgReadShort (msg : Message) : Parser (BitVec 32) :=
  msgRead msg 2 fun data => (data 1 ++ data 0).signExtend 32

/-- `MSG_ReadByte`. -/
def msgReadByte (msg : Message) : Parser (BitVec 32) :=
  msgRead msg 1 fun data => (data 0).setWidth 32

/-- `MSG_ReadChar`. -/
def msgReadChar (msg : Message) : Parser (BitVec 32) :=
  msgRead msg 1 fun data => (data 0).signExtend 32

/-- `MSG_ReadCoord`, in eighths of a unit. -/
def msgReadCoord (msg : Message) : Parser (BitVec 32) := msgReadShort msg

/-- `MSG_ReadAngle`, in 256ths of a turn. -/
def msgReadAngle (msg : Message) : Parser (BitVec 32) := msgReadChar msg

/-- `MSG_ReadAngle16`, in 65536ths of a turn. -/
def msgReadAngle16 (msg : Message) : Parser (BitVec 32) := msgReadShort msg

/-- `MSG_ReadFloat`: the bit pattern of the float. -/
def msgReadFloat (msg : Message) : Parser (BitVec 32) := fun q =>
  (some (msg.at q.msgReadcount 3 ++ msg.at q.msgReadcount 2 ++ msg.at q.msgReadcount 1
    ++ msg.at q.msgReadcount 0), q.advance 4)

/-- The loop of `MSG_ReadString`, `room` characters before it is left anyway. -/
def msgReadStringLoop (msg : Message) : Nat → List Byte → Parser (List Byte)
  | 0, string => pure string
  | room + 1, string => do
    let c ← msgReadByte msg
    if c = -1#32 ∨ c = 0#32 then
      pure string
    else
      msgReadStringLoop msg room (string ++ [c.setWidth 8])

/-- `readstring_buffer` after `string` and its terminator were stored in it. -/
def storeString (mem : Nat → Byte) (string : List Byte) (i : Nat) : Byte :=
  if i < string.length then string.getD i 0 else if i = string.length then 0 else mem i

/-- The string that was read is in `readstring_buffer`. -/
def QwConnection.setReadstring (string : List Byte) (q : QwConnection) : QwConnection :=
  { q with readstringBuffer := storeString q.readstringBuffer string }

/-- `MSG_ReadString`. -/
def msgReadString (msg : Message) : Parser (List Byte) := do
  let string ← msgReadStringLoop msg 2047 []
  RunM.modify (QwConnection.setReadstring string)
  pure string

/-- `if (bits & flag) read`. -/
def readIf (bits flag : BitVec 32) (read : Parser (BitVec 32)) : Parser Unit :=
  if bits &&& flag ≠ 0#32 then read >>= fun _ => pure () else pure ()

/-- The fields of a command whose `bits` were read. -/
def readUsercmdFields (msg : Message) (bits protoversion : BitVec 32) : Parser Unit := do
  (if protoversion = 26#32 then do
    -- read current angles
    readIf bits 0x01#32 (msgReadAngle16 msg)
    let _ ← msgReadAngle16 msg
    readIf bits 0x02#32 (msgReadAngle16 msg)
    -- read movement
    readIf bits 0x04#32 (msgReadChar msg)
    readIf bits 0x08#32 (msgReadChar msg)
    readIf bits 0x10#32 (msgReadChar msg)
  else do
    readIf bits 0x01#32 (msgReadAngle16 msg)
    readIf bits 0x80#32 (msgReadAngle16 msg)
    readIf bits 0x02#32 (msgReadAngle16 msg)
    readIf bits 0x04#32 (msgReadShort msg)
    readIf bits 0x08#32 (msgReadShort msg)
    readIf bits 0x10#32 (msgReadShort msg))
  -- read buttons
  readIf bits 0x20#32 (msgReadByte msg)
  readIf bits 0x40#32 (msgReadByte msg)
  -- read time to run command
  (if protoversion = 26#32 then
    readIf bits 0x80#32 (msgReadByte msg)
  else do
    let _ ← msgReadByte msg
    pure ())

/-- `MSG_ReadDeltaUsercmd`. -/
def msgReadDeltaUsercmd (msg : Message) : Parser Unit := do
  let bits ← msgReadByte msg
  let q ← RunM.get
  readUsercmdFields msg bits q.protoversion

end QwNet
