/-
  QwNet.Channel.Usercmd

  `WriteDeltaUsercmd`: the fields in which a command differs from the one before it.

  Rounding an angle to 16 bits is left to the caller; comparing floats is not.
-/
import Mathlib.Data.Fin.VecNotation
import QwNet.Channel.NetQW

namespace QwNet

/-- The bit pattern is one of a NaN. -/
def floatIsNaN (f : BitVec 32) : Bool := 0x7f800000#32 < (f &&& 0x7fffffff#32)

/-- `f != g` for floats: a NaN differs from everything, and the zeros are equal. -/
def floatNe (f g : BitVec 32) : Bool :=
  floatIsNaN f || floatIsNaN g || (f != g && (f ||| g) &&& 0x7fffffff#32 != 0#32)

/-- A `short`, low byte first. -/
def writeShort (v : BitVec 16) : List Byte := [v.setWidth 8, (v >>> 8).setWidth 8]

/-- `if (b) bits |= flag`. -/
def setFlag (b : Bool) (flag : Byte) : Byte := if b then flag else 0

/-- The `CM_` bits of the fields that differ. -/
def usercmdBits (base cmd : Usercmd) : Byte :=
  setFlag (floatNe (cmd.angles 0) (base.angles 0)) 0x01
    ||| setFlag (floatNe (cmd.angles 1) (base.angles 1)) 0x80
    ||| setFlag (floatNe (cmd.angles 2) (base.angles 2)) 0x02
    ||| setFlag (cmd.forwardmove != base.forwardmove) 0x04
    ||| setFlag (cmd.sidemove != base.sidemove) 0x08
    ||| setFlag (cmd.upmove != base.upmove) 0x10
    ||| setFlag (cmd.buttons != base.buttons) 0x20
    ||| setFlag (cmd.impulse != base.impulse) 0x40

/-- `angles[0]`, `angles[1]` and `angles[2]`. -/
abbrev Usercmd.angle₀ (cmd : Usercmd) : BitVec 32 := cmd.angles 0

abbrev Usercmd.angle₁ (cmd : Usercmd) : BitVec 32 := cmd.angles 1

abbrev Usercmd.angle₂ (cmd : Usercmd) : BitVec 32 := cmd.angles 2

/-- `if (bits & flag)` the field is written. -/
def writeIf (bits flag : Byte) (field : List Byte) : List Byte :=
  if bits &&& flag ≠ 0 then field else []

/-- `WriteDeltaUsercmd`; `angle16` is the rounding of `WriteAngle16`. -/
def writeDeltaUsercmd (angle16 : BitVec 32 → BitVec 16) (base cmd : Usercmd) : List Byte :=
  let bits := usercmdBits base cmd
  [bits]
    ++ writeIf bits 0x01 (writeShort (angle16 (cmd.angles 0)))
    ++ writeIf bits 0x80 (writeShort (angle16 (cmd.angles 1)))
    ++ writeIf bits 0x02 (writeShort (angle16 (cmd.angles 2)))
    ++ writeIf bits 0x04 (writeShort cmd.forwardmove)
    ++ writeIf bits 0x08 (writeShort cmd.sidemove)
    ++ writeIf bits 0x10 (writeShort cmd.upmove)
    ++ writeIf bits 0x20 [cmd.buttons]
    ++ writeIf bits 0x40 [cmd.impulse]
    ++ [cmd.msec]

/-- What `NetQW_SetTeleport` stores in `tmove_buffer`: of each coordinate the low byte, then
    the next. -/
def teleportBytes (position : Fin 3 → BitVec 32) : Fin 6 → Byte :=
  ![(position 0).setWidth 8, (position 0 >>> 8).setWidth 8,
    (position 1).setWidth 8, (position 1 >>> 8).setWidth 8,
    (position 2).setWidth 8, (position 2 >>> 8).setWidth 8]

theorem writeIf_length_le (bits flag : Byte) (field : List Byte) :
    (writeIf bits flag field).length ≤ field.length := by
  unfold writeIf
  split
  · exact Nat.le_refl _
  · exact Nat.zero_le _

/-- A command takes up at most 16 bytes. -/
theorem writeDeltaUsercmd_length_le (angle16 : BitVec 32 → BitVec 16) (base cmd : Usercmd) :
    (writeDeltaUsercmd angle16 base cmd).length ≤ 16 := by
  have hshort := fun flag v => writeIf_length_le (usercmdBits base cmd) flag (writeShort v)
  have hbyte := fun flag b => writeIf_length_le (usercmdBits base cmd) flag [b]
  have h₁ := hshort 0x01 (angle16 (cmd.angles 0))
  have h₂ := hshort 0x80 (angle16 (cmd.angles 1))
  have h₃ := hshort 0x02 (angle16 (cmd.angles 2))
  have h₄ := hshort 0x04 cmd.forwardmove
  have h₅ := hshort 0x08 cmd.sidemove
  have h₆ := hshort 0x10 cmd.upmove
  have h₇ := hbyte 0x20 cmd.buttons
  have h₈ := hbyte 0x40 cmd.impulse
  simp only [writeShort, List.length_cons, List.length_nil] at h₁ h₂ h₃ h₄ h₅ h₆ h₇ h₈
  simp only [writeDeltaUsercmd, writeShort, List.length_append, List.length_cons, List.length_nil]
  omega

end QwNet
