/-
  QwNet.Parser.UsercmdReads

  `MSG_ReadDeltaUsercmd` reads what `WriteDeltaUsercmd` writes.

  The reader of the source throws away what it reads; here the same reads return their
  values.  `Yields` says that a parser eats exactly some bytes and returns a value; it
  goes through a sequence of reads as the bytes are put one after the other.
-/
import QwNet.Channel.Usercmd
import QwNet.Parser.Reading

namespace QwNet

/-! ## The values that are read -/

/-- What the `MSG_Read` calls for one command return; a field that is not in the message has
    none. -/
structure UsercmdReads where
  angle₀ : Option (BitVec 32)
  angle₁ : Option (BitVec 32)
  angle₂ : Option (BitVec 32)
  forwardmove : Option (BitVec 32)
  sidemove : Option (BitVec 32)
  upmove : Option (BitVec 32)
  buttons : Option (BitVec 32)
  impulse : Option (BitVec 32)
  msec : BitVec 32

/-- `if (bits & flag) read`, with the value. -/
def readIfValue (bits flag : BitVec 32) (read : Parser (BitVec 32)) :
    Parser (Option (BitVec 32)) :=
  if bits &&& flag ≠ 0#32 then read >>= fun v => pure (some v) else pure none

/-- The fields of a command whose `bits` were read, for `protoversion` other than 26. -/
def readUsercmdValues (msg : Message) (bits : BitVec 32) : Parser UsercmdReads := do
  let angle₀ ← readIfValue bits 0x01#32 (msgReadAngle16 msg)
  let angle₁ ← readIfValue bits 0x80#32 (msgReadAngle16 msg)
  let angle₂ ← readIfValue bits 0x02#32 (msgReadAngle16 msg)
  let forwardmove ← readIfValue bits 0x04#32 (msgReadShort msg)
  let sidemove ← readIfValue bits 0x08#32 (msgReadShort msg)
  let upmove ← readIfValue bits 0x10#32 (msgReadShort msg)
  let buttons ← readIfValue bits 0x20#32 (msgReadByte msg)
  let impulse ← readIfValue bits 0x40#32 (msgReadByte msg)
  let msec ← msgReadByte msg
  pure ⟨angle₀, angle₁, angle₂, forwardmove, sidemove, upmove, buttons, impulse, msec⟩

/-- `MSG_ReadDeltaUsercmd` with its values, for `protoversion` other than 26. -/
def msgReadUsercmdValues (msg : Message) : Parser UsercmdReads := do
  let bits ← msgReadByte msg
  readUsercmdValues msg bits

theorem readIf_eq (bits flag : BitVec 32) (read : Parser (BitVec 32)) :
    readIf bits flag read = readIfValue bits flag read >>= fun _ => pure () := by
  unfold readIf readIfValue
  split
  · rw [RunM.bind_assoc]
    rfl
  · rfl

theorem readUsercmdFields_eq (msg : Message) (bits : BitVec 32) {protoversion : BitVec 32}
    (hproto : protoversion ≠ 26#32) :
    readUsercmdFields msg bits protoversion = readUsercmdValues msg bits >>= fun _ => pure () := by
  unfold readUsercmdFields readUsercmdValues
  rw [if_neg hproto, if_neg hproto]
  simp only [readIf_eq, RunM.bind_assoc, RunM.pure_bind']

/-! ## Eating bytes -/

/-- The message has `bytes` from `pos` on. -/
structure Message.Contains (msg : Message) (pos : Nat) (bytes : List Byte) : Prop where
  data : ∀ i (h : i < bytes.length), msg.data (pos + i) = bytes[i]
  inside : pos + bytes.length ≤ msg.cursize

theorem Message.Contains.left {msg : Message} {pos : Nat} {bytes rest : List Byte}
    (h : msg.Contains pos (bytes ++ rest)) : msg.Contains pos bytes where
  data i hi := by
    rw [h.data i (by rw [List.length_append]; omega), List.getElem_append_left hi]
  inside := by
    have hinside := h.inside
    rw [List.length_append] at hinside
    omega

theorem Message.Contains.right {msg : Message} {pos : Nat} {bytes rest : List Byte}
    (h : msg.Contains pos (bytes ++ rest)) : msg.Contains (pos + bytes.length) rest where
  data i hi := by
    have hdata := h.data (bytes.length + i) (by rw [List.length_append]; omega)
    rw [← Nat.add_assoc] at hdata
    rw [hdata, List.getElem_append_right (Nat.le_add_right _ _)]
    simp only [Nat.add_sub_cancel_left]
  inside := by
    have hinside := h.inside
    rw [List.length_append] at hinside
    omega

/-- The cursor moved over `n` bytes, and no read was short. -/
structure QwConnection.Past (n : Nat) (q q' : QwConnection) : Prop where
  readcount : q'.msgReadcount.toNat = q.msgReadcount.toNat + n
  badread : q'.msgBadread = q.msgBadread
  protoversion : q'.protoversion = q.protoversion

/-- Where the message has `bytes`, `m` eats them and returns `v`. -/
def Yields {α : Type} (msg : Message) (m : Parser α) (bytes : List Byte) (v : α) : Prop :=
  ∀ q, msg.Contains q.msgReadcount.toNat bytes →
    ∃ q', m q = (some v, q') ∧ q.Past bytes.length q'

section Yields

variable {α β : Type} {msg : Message}

theorem yields_pure (v : α) : Yields msg (pure v) [] v := fun q _ => ⟨q, rfl, rfl, rfl, rfl⟩

theorem Yields.bind {m : Parser α} {f : α → Parser β} {bytes rest : List Byte} {v : α} {w : β}
    (hm : Yields msg m bytes v) (hf : Yields msg (f v) rest w) :
    Yields msg (m >>= f) (bytes ++ rest) w := by
  intro q hq
  obtain ⟨q₁, hrun₁, hpast₁⟩ := hm q hq.left
  have hright := hq.right
  rw [← hpast₁.readcount] at hright
  obtain ⟨q₂, hrun₂, hpast₂⟩ := hf q₁ hright
  refine ⟨q₂, (RunM.bind_some hrun₁).trans hrun₂, ?_, ?_, ?_⟩
  · rw [hpast₂.readcount, hpast₁.readcount, List.length_append, Nat.add_assoc]
  · exact hpast₂.badread.trans hpast₁.badread
  · exact hpast₂.protoversion.trans hpast₁.protoversion

theorem Yields.map {m : Parser α} {bytes : List Byte} {v : α} (hm : Yields msg m bytes v)
    (g : α → β) : Yields msg (m >>= fun v => pure (g v)) bytes (g v) := by
  have hbind : Yields msg (m >>= fun v => pure (g v)) (bytes ++ []) (g v) :=
    hm.bind (yields_pure (g v))
  rwa [List.append_nil] at hbind

/-- A checked read where the message is long enough. -/
theorem yields_msgRead (bytes : List Byte) {value : (Nat → Byte) → BitVec 32} {v : BitVec 32}
    (hvalue : ∀ data : Nat → Byte, (∀ i (h : i < bytes.length), data i = bytes[i]) → value data = v) :
    Yields msg (msgRead msg bytes.length value) bytes v := by
  intro q hq
  have hinside := hq.inside
  have hcursize := msg.cursize_lt
  -- the cursor does not wrap inside the message
  have hadd : ∀ k ≤ bytes.length,
      (q.msgReadcount + BitVec.ofNat 32 k).toNat = q.msgReadcount.toNat + k := by
    intro k hk
    rw [BitVec.toNat_add, BitVec.toNat_ofNat, Nat.mod_eq_of_lt (show k < 2 ^ 32 by omega)]
    exact Nat.mod_eq_of_lt (by omega)
  have hfits : msg.Fits q.msgReadcount bytes.length := by
    rw [Message.Fits, hadd _ (Nat.le_refl _)]
    exact hinside
  have hdata : ∀ i (h : i < bytes.length), msg.at q.msgReadcount i = bytes[i] := by
    intro i hi
    rw [Message.at, hadd i (Nat.le_of_lt hi)]
    exact hq.data i hi
  refine ⟨q.advance bytes.length, ?_, hadd _ (Nat.le_refl _), rfl, rfl⟩
  rw [msgRead, if_pos hfits, hvalue _ hdata]

theorem yields_byte (b : Byte) : Yields msg (msgReadByte msg) [b] (b.setWidth 32) :=
  yields_msgRead [b] fun _ hdata => congrArg (BitVec.setWidth 32) (hdata 0 Nat.one_pos)

/-- The two bytes of a `short` are put together again. -/
theorem yields_short (v : BitVec 16) :
    Yields msg (msgReadShort msg) (writeShort v) (v.signExtend 32) := by
  refine yields_msgRead (writeShort v) fun data hdata => ?_
  have hlow : data 0 = v.setWidth 8 := hdata 0 Nat.zero_lt_two
  have hhigh : data 1 = (v >>> 8).setWidth 8 := hdata 1 Nat.one_lt_two
  have hword : (v >>> 8).setWidth 8 ++ v.setWidth 8 = v := by
    apply BitVec.eq_of_getLsbD_eq
    intro i hi
    rw [BitVec.getLsbD_append, BitVec.getLsbD_setWidth, BitVec.getLsbD_setWidth,
      BitVec.getLsbD_ushiftRight]
    by_cases h8 : i < 8
    · simp [h8]
    · simp [h8, show 8 + (i - 8) = i by omega, show i - 8 < 8 by omega]
  rw [hlow, hhigh, hword]

/-! ## A command -/

/-- A field is read if it was written. -/
theorem yields_readIfValue {read : Parser (BitVec 32)} {field : List Byte} {v : BitVec 32}
    (bits flag : Byte) (hread : Yields msg read field v) :
    Yields msg (readIfValue (bits.setWidth 32) (flag.setWidth 32) read) (writeIf bits flag field)
      (if bits &&& flag ≠ 0 then some v else none) := by
  unfold readIfValue writeIf
  by_cases hflag : bits &&& flag ≠ 0
  · rw [if_pos ((setWidth_and_ne_zero (by decide) bits flag).mpr hflag), if_pos hflag, if_pos hflag]
    exact hread.map some
  · rw [if_neg (mt (setWidth_and_ne_zero (by decide) bits flag).mp hflag), if_neg hflag, if_neg hflag]
    exact yields_pure none

end Yields

/-- A field that differs is sent. -/
def sentIf (differs : Bool) (v : BitVec 32) : Option (BitVec 32) := if differs then some v else none

/-- What the reader is to find of `cmd`, written against `base`. -/
def usercmdReads (angle16 : BitVec 32 → BitVec 16) (base cmd : Usercmd) : UsercmdReads where
  angle₀ := sentIf (floatNe cmd.angle₀ base.angle₀) ((angle16 cmd.angle₀).signExtend 32)
  angle₁ := sentIf (floatNe cmd.angle₁ base.angle₁) ((angle16 cmd.angle₁).signExtend 32)
  angle₂ := sentIf (floatNe cmd.angle₂ base.angle₂) ((angle16 cmd.angle₂).signExtend 32)
  forwardmove := sentIf (cmd.forwardmove != base.forwardmove) (cmd.forwardmove.signExtend 32)
  sidemove := sentIf (cmd.sidemove != base.sidemove) (cmd.sidemove.signExtend 32)
  upmove := sentIf (cmd.upmove != base.upmove) (cmd.upmove.signExtend 32)
  buttons := sentIf (cmd.buttons != base.buttons) (cmd.buttons.setWidth 32)
  impulse := sentIf (cmd.impulse != base.impulse) (cmd.impulse.setWidth 32)
  msec := cmd.msec.setWidth 32

/-- The flags do not overlap. -/
theorem setFlag_and : ∀ b₀ b₁ b₂ b₃ b₄ b₅ b₆ b₇ : Bool,
    let bits := setFlag b₀ 0x01 ||| setFlag b₁ 0x80 ||| setFlag b₂ 0x02 ||| setFlag b₃ 0x04
      ||| setFlag b₄ 0x08 ||| setFlag b₅ 0x10 ||| setFlag b₆ 0x20 ||| setFlag b₇ 0x40
    (bits &&& 0x01 ≠ 0 ↔ b₀ = true) ∧ (bits &&& 0x80 ≠ 0 ↔ b₁ = true) ∧
      (bits &&& 0x02 ≠ 0 ↔ b₂ = true) ∧ (bits &&& 0x04 ≠ 0 ↔ b₃ = true) ∧
      (bits &&& 0x08 ≠ 0 ↔ b₄ = true) ∧ (bits &&& 0x10 ≠ 0 ↔ b₅ = true) ∧
      (bits &&& 0x20 ≠ 0 ↔ b₆ = true) ∧ (bits &&& 0x40 ≠ 0 ↔ b₇ = true) := by
  decide +kernel

/-- One call reads one command. -/
theorem yields_writeDeltaUsercmd (angle16 : BitVec 32 → BitVec 16) (msg : Message)
    (base cmd : Usercmd) : Yields msg (msgReadUsercmdValues msg)
      (writeDeltaUsercmd angle16 base cmd) (usercmdReads angle16 base cmd) := by
  obtain ⟨h₀, h₁, h₂, h₃, h₄, h₅, h₆, h₇⟩ := setFlag_and
    (floatNe (cmd.angles 0) (base.angles 0)) (floatNe (cmd.angles 1) (base.angles 1))
    (floatNe (cmd.angles 2) (base.angles 2)) (cmd.forwardmove != base.forwardmove)
    (cmd.sidemove != base.sidemove) (cmd.upmove != base.upmove) (cmd.buttons != base.buttons)
    (cmd.impulse != base.impulse)
  have hfield : ∀ {read : Parser (BitVec 32)} {field : List Byte} {v : BitVec 32} {flag : Byte}
      {differs : Bool}, (usercmdBits base cmd &&& flag ≠ 0 ↔ differs = true) →
      Yields msg read field v → Yields msg
        (readIfValue ((usercmdBits base cmd).setWidth 32) (flag.setWidth 32) read)
        (writeIf (usercmdBits base cmd) flag field) (sentIf differs v) := by
    intro read field v flag differs hdiffers hread
    rw [sentIf, ← if_congr hdiffers rfl rfl]
    exact yields_readIfValue _ flag hread
  rw [writeDeltaUsercmd]
  simp only [List.append_assoc]
  refine (yields_byte _).bind ?_
  refine (hfield h₀ (yields_short _)).bind ?_
  refine (hfield h₁ (yields_short _)).bind ?_
  refine (hfield h₂ (yields_short _)).bind ?_
  refine (hfield h₃ (yields_short _)).bind ?_
  refine (hfield h₄ (yields_short _)).bind ?_
  refine (hfield h₅ (yields_short _)).bind ?_
  refine (hfield h₆ (yields_byte _)).bind ?_
  refine (hfield h₇ (yields_byte _)).bind ?_
  exact (yields_byte cmd.msec).map _

/-- The reader of the source makes the same reads. -/
theorem msgReadDeltaUsercmd_of_values {msg : Message} {q q' : QwConnection} {r : UsercmdReads}
    (hproto : q.protoversion ≠ 26#32) (h : msgReadUsercmdValues msg q = (some r, q')) :
    msgReadDeltaUsercmd msg q = (some (), q') := by
  obtain ⟨bits, q₁, hbits, hfields⟩ := RunM.bind_eq_some h
  have hsame : q₁.protoversion = q.protoversion := by
    have hread : (msgReadByte msg q).2.protoversion = q.protoversion := by
      unfold msgReadByte msgRead
      split <;> rfl
    rwa [hbits] at hread
  have hproto₁ : q₁.protoversion ≠ 26#32 := by
    rw [hsame]
    exact hproto
  unfold msgReadDeltaUsercmd
  rw [RunM.bind_some hbits, RunM.get_bind, readUsercmdFields_eq msg bits hproto₁,
    RunM.bind_some hfields]
  rfl

/-! ## Three commands -/

/-- Three calls, as `ParsePlayerinfo` would make them. -/
def readThree {α : Type} (read : Parser α) : Parser (α × α × α) := do
  let r₀ ← read
  let r₁ ← read
  let r₂ ← read
  pure (r₀, r₁, r₂)

/-- A field as it is after the read, if it was read. -/
def updated {n : Nat} (r : Option (BitVec 32)) (old : BitVec n) : BitVec n :=
  (r.map fun v => v.setWidth n).getD old

/-- An angle is read as its word, or it is the float it was. -/
def AngleRebuilt (angle16 : BitVec 32 → BitVec 16) (r : Option (BitVec 32)) (old new : BitVec 32) :
    Prop :=
  r = some ((angle16 new).signExtend 32) ∨ r = none ∧ floatNe new old = false

/-- Applied to `base`, what was read rebuilds `cmd`. -/
structure UsercmdReads.Rebuilds (angle16 : BitVec 32 → BitVec 16) (r : UsercmdReads)
    (base cmd : Usercmd) : Prop where
  angle₀ : AngleRebuilt angle16 r.angle₀ (base.angles 0) (cmd.angles 0)
  angle₁ : AngleRebuilt angle16 r.angle₁ (base.angles 1) (cmd.angles 1)
  angle₂ : AngleRebuilt angle16 r.angle₂ (base.angles 2) (cmd.angles 2)
  forwardmove : updated r.forwardmove base.forwardmove = cmd.forwardmove
  sidemove : updated r.sidemove base.sidemove = cmd.sidemove
  upmove : updated r.upmove base.upmove = cmd.upmove
  buttons : updated r.buttons base.buttons = cmd.buttons
  impulse : updated r.impulse base.impulse = cmd.impulse
  msec : r.msec.setWidth 8 = cmd.msec

theorem angleRebuilt_sentIf (angle16 : BitVec 32 → BitVec 16) (old new : BitVec 32) :
    AngleRebuilt angle16 (sentIf (floatNe new old) ((angle16 new).signExtend 32)) old new := by
  unfold AngleRebuilt sentIf
  cases floatNe new old with
  | true => exact .inl rfl
  | false => exact .inr ⟨rfl, rfl⟩

theorem updated_sentIf {n : Nat} {new old : BitVec n} {v : BitVec 32} (hv : v.setWidth n = new) :
    updated (sentIf (new != old) v) old = new := by
  unfold sentIf
  split
  · exact hv
  · rename_i hsame
    exact (bne_eq_false_iff_eq.mp (Bool.eq_false_iff.mpr hsame)).symm

theorem setWidth_signExtend (v : BitVec 16) : (v.signExtend 32).setWidth 16 = v := by
  apply BitVec.eq_of_getLsbD_eq
  intro i hi
  rw [BitVec.getLsbD_setWidth, BitVec.getLsbD_signExtend]
  simp [hi, show i < 32 by omega]

theorem usercmdReads_rebuilds (angle16 : BitVec 32 → BitVec 16) (base cmd : Usercmd) :
    (usercmdReads angle16 base cmd).Rebuilds angle16 base cmd where
  angle₀ := angleRebuilt_sentIf angle16 _ _
  angle₁ := angleRebuilt_sentIf angle16 _ _
  angle₂ := angleRebuilt_sentIf angle16 _ _
  forwardmove := updated_sentIf (setWidth_signExtend _)
  sidemove := updated_sentIf (setWidth_signExtend _)
  upmove := updated_sentIf (setWidth_signExtend _)
  buttons := updated_sentIf (BitVec.setWidth_setWidth_of_le _ (by decide))
  impulse := updated_sentIf (BitVec.setWidth_setWidth_of_le _ (by decide))
  msec := BitVec.setWidth_setWidth_of_le _ (by decide)

/-- Three calls of `MSG_ReadDeltaUsercmd` read the three commands of a movement packet. -/
theorem usercmds_read (angle16 : BitVec 32 → BitVec 16) (msg : Message) (q : QwConnection)
    (base c₀ c₁ c₂ : Usercmd) (hproto : q.protoversion ≠ 26#32)
    (hmsg : msg.Contains q.msgReadcount.toNat (writeDeltaUsercmd angle16 base c₀
      ++ writeDeltaUsercmd angle16 c₀ c₁ ++ writeDeltaUsercmd angle16 c₁ c₂)) :
    ∃ q', readThree (msgReadDeltaUsercmd msg) q = (some ((), (), ()), q') ∧
      readThree (msgReadUsercmdValues msg) q = (some (usercmdReads angle16 base c₀,
        usercmdReads angle16 c₀ c₁, usercmdReads angle16 c₁ c₂), q') ∧
      q'.msgReadcount.toNat = q.msgReadcount.toNat + (writeDeltaUsercmd angle16 base c₀
        ++ writeDeltaUsercmd angle16 c₀ c₁ ++ writeDeltaUsercmd angle16 c₁ c₂).length ∧
      q'.msgBadread = q.msgBadread ∧
      (usercmdReads angle16 base c₀).Rebuilds angle16 base c₀ ∧
      (usercmdReads angle16 c₀ c₁).Rebuilds angle16 c₀ c₁ ∧
      (usercmdReads angle16 c₁ c₂).Rebuilds angle16 c₁ c₂ := by
  obtain ⟨q₀, hrun₀, hpast₀⟩ := yields_writeDeltaUsercmd angle16 msg base c₀ q hmsg.left.left
  have h₁ := hmsg.left.right
  rw [← hpast₀.readcount] at h₁
  obtain ⟨q₁, hrun₁, hpast₁⟩ := yields_writeDeltaUsercmd angle16 msg c₀ c₁ q₀ h₁
  have h₂ := hmsg.right
  rw [List.length_append, ← Nat.add_assoc, ← hpast₀.readcount, ← hpast₁.readcount] at h₂
  obtain ⟨q₂, hrun₂, hpast₂⟩ := yields_writeDeltaUsercmd angle16 msg c₁ c₂ q₁ h₂
  have hproto₀ : q₀.protoversion ≠ 26#32 := hpast₀.protoversion ▸ hproto
  have hproto₁ : q₁.protoversion ≠ 26#32 := hpast₁.protoversion ▸ hproto₀
  refine ⟨q₂, ?_, ?_, ?_, ?_, usercmdReads_rebuilds .., usercmdReads_rebuilds ..,
    usercmdReads_rebuilds ..⟩
  · unfold readThree
    rw [RunM.bind_some (msgReadDeltaUsercmd_of_values hproto hrun₀),
      RunM.bind_some (msgReadDeltaUsercmd_of_values hproto₀ hrun₁),
      RunM.bind_some (msgReadDeltaUsercmd_of_values hproto₁ hrun₂)]
    rfl
  · unfold readThree
    rw [RunM.bind_some hrun₀, RunM.bind_some hrun₁, RunM.bind_some hrun₂]
    rfl
  · rw [hpast₂.readcount, hpast₁.readcount, hpast₀.readcount, List.length_append,
      List.length_append, Nat.add_assoc, Nat.add_assoc, Nat.add_assoc]
  · exact hpast₂.badread.trans (hpast₁.badread.trans hpast₀.badread)

theorem Message.contains_ofBytes (bytes : List Byte) (h : bytes.length < 2 ^ 31) :
    (Message.ofBytes bytes h).Contains 0 bytes where
  data i hi := by
    rw [Nat.zero_add]
    exact (List.getD_eq_getElem?_getD ..).trans (by rw [List.getElem?_eq_getElem hi]; rfl)
  inside := Nat.le_of_eq (Nat.zero_add _)

/-- A player starts to walk and then turns: the second command differs from the first in one
    move, and the third from the second in one angle. -/
theorem usercmds_read_walk :
    let c₁ : Usercmd := { zerocmd with msec := 14, forwardmove := 400 }
    let c₂ : Usercmd := { c₁ with angles := Function.update c₁.angles 1 0x42b40000#32 }
    let bytes := writeDeltaUsercmd (fun _ => 0x4000#16) zerocmd zerocmd
      ++ writeDeltaUsercmd (fun _ => 0x4000#16) zerocmd c₁
      ++ writeDeltaUsercmd (fun _ => 0x4000#16) c₁ c₂
    ∃ (h : bytes.length < 2 ^ 31) (q' : QwConnection), q'.msgReadcount.toNat = 10 ∧
      readThree (msgReadUsercmdValues (Message.ofBytes bytes h)) .fresh
        = (some (usercmdReads (fun _ => 0x4000#16) zerocmd zerocmd,
          usercmdReads (fun _ => 0x4000#16) zerocmd c₁,
          usercmdReads (fun _ => 0x4000#16) c₁ c₂), q') := by
  intro c₁ c₂ bytes
  have hlength : bytes.length = 10 := by decide
  have hlt : bytes.length < 2 ^ 31 := by
    rw [hlength]
    decide
  obtain ⟨q', -, hreads, hcount, -⟩ := usercmds_read (fun _ => 0x4000#16)
    (Message.ofBytes bytes hlt) .fresh zerocmd zerocmd c₁ c₂ (by decide)
    (Message.contains_ofBytes bytes hlt)
  refine ⟨hlt, q', ?_, hreads⟩
  rw [hcount]
  exact (Nat.zero_add _).trans hlength

end QwNet
