/-
  QwNet.Parser.Layout

  The wire layouts that protocol.h writes next to the server-to-client commands,
  and what it means for code to take exactly the bytes of a layout.
-/
import QwNet.Parser.Arms

namespace QwNet

open RunM

/-! ## Layouts -/

/-- A `[string]`: no NUL inside, and short enough for `readstring_buffer`. -/
structure CString where
  chars : List Byte
  no_nul : ∀ c ∈ chars, c ≠ 0#8
  length_lt : chars.length < 2047

/-- A field of a layout with its value; `[float]` is the bit pattern. -/
inductive Field where
  | byte (v : Byte)
  | short (v : BitVec 16)
  | coord (v : BitVec 16)
  | long (v : BitVec 32)
  | float (v : BitVec 32)
  | string (s : CString)

/-- Least significant byte first. -/
def littleEndian {w : Nat} (v : BitVec w) : Nat → List Byte
  | 0 => []
  | n + 1 => v.setWidth 8 :: littleEndian (v >>> 8) n

@[simp] theorem littleEndian_length {w : Nat} (v : BitVec w) (n : Nat) :
    (littleEndian v n).length = n := by
  induction n generalizing v with
  | zero => rfl
  | succ n ih => simp [littleEndian, ih]

/-- The bytes of a field. -/
def Field.bytes : Field → List Byte
  | .byte v => [v]
  | .short v => littleEndian v 2
  | .coord v => littleEndian v 2
  | .long v => littleEndian v 4
  | .float v => littleEndian v 4
  | .string s => s.chars ++ [0]

/-- The commands whose complete layout is in protocol.h, with the values of their fields. -/
inductive Command where
  | updatestat (stat value : Byte)
  | setview (entity : BitVec 16)
  | time (servertime : BitVec 32)
  | print (id : Byte) (text : CString)
  | stufftext (text : CString)
  | lightstyle (style : Byte) (map : CString)
  | updatefrags (slot : Byte) (frags : BitVec 16)
  | setpause (on : Byte)
  | centerprint (text : CString)
  | spawnstaticsound (x y z : BitVec 16) (samp vol aten : Byte)
  | finale (text : CString)
  | cdtrack (track : Byte)
  | updateping (slot : Byte) (ping : BitVec 16)
  | updateentertime (slot : Byte) (entered : BitVec 32)
  | updatestatlong (stat : Byte) (value : BitVec 32)
  | muzzleflash (entity : BitVec 16)
  | updateuserinfo (slot : Byte) (uid : BitVec 32) (userinfo : CString)
  | chokecount (packets : Byte)
  | updatepl (slot : Byte) (pl : Byte)

/-- The command byte. -/
def Command.svc : Command → Svc
  | .updatestat .. => .svcUpdatestat
  | .setview .. => .svcSetview
  | .time .. => .svcTime
  | .print .. => .svcPrint
  | .stufftext .. => .svcStufftext
  | .lightstyle .. => .svcLightstyle
  | .updatefrags .. => .svcUpdatefrags
  | .setpause .. => .svcSetpause
  | .centerprint .. => .svcCenterprint
  | .spawnstaticsound .. => .svcSpawnstaticsound
  | .finale .. => .svcFinale
  | .cdtrack .. => .svcCdtrack
  | .updateping .. => .svcUpdateping
  | .updateentertime .. => .svcUpdateentertime
  | .updatestatlong .. => .svcUpdatestatlong
  | .muzzleflash .. => .svcMuzzleflash
  | .updateuserinfo .. => .svcUpdateuserinfo
  | .chokecount .. => .svcChokecount
  | .updatepl .. => .svcUpdatepl

/-- The fields behind the command byte. -/
def Command.fields : Command → List Field
  | .updatestat stat value => [.byte stat, .byte value]
  | .setview entity => [.short entity]
  | .time servertime => [.float servertime]
  | .print id text => [.byte id, .string text]
  | .stufftext text => [.string text]
  | .lightstyle style map => [.byte style, .string map]
  | .updatefrags slot frags => [.byte slot, .short frags]
  | .setpause on => [.byte on]
  | .centerprint text => [.string text]
  | .spawnstaticsound x y z samp vol aten =>
    [.coord x, .coord y, .coord z, .byte samp, .byte vol, .byte aten]
  | .finale text => [.string text]
  | .cdtrack track => [.byte track]
  | .updateping slot ping => [.byte slot, .short ping]
  | .updateentertime slot entered => [.byte slot, .float entered]
  | .updatestatlong stat value => [.byte stat, .long value]
  | .muzzleflash entity => [.short entity]
  | .updateuserinfo slot uid userinfo => [.byte slot, .long uid, .string userinfo]
  | .chokecount packets => [.byte packets]
  | .updatepl slot pl => [.byte slot, .byte pl]

/-- The bytes behind the command byte. -/
def Command.payload (c : Command) : List Byte := c.fields.flatMap Field.bytes

/-- A command on the wire. -/
def Command.encode (c : Command) : List Byte := c.svc.code :: c.payload

/-- Every command carries something. -/
theorem Command.payload_length_pos (c : Command) : 0 < c.payload.length := by
  cases c <;> simp [Command.payload, Command.fields, Field.bytes]

/-! ## Taking bytes -/

/-- `bytes` are in the message from `pos` on. -/
def Message.HasAt (msg : Message) (pos : Nat) (bytes : List Byte) : Prop :=
  ∀ i (h : i < bytes.length), msg.data (pos + i) = bytes[i]

theorem Message.hasAt_ofBytes {bytes : List Byte} (h : bytes.length < 2 ^ 31) :
    (Message.ofBytes bytes h).HasAt 0 bytes := by
  intro i hi
  simp [Message.ofBytes, hi]

theorem Message.HasAt.left {msg : Message} {pos : Nat} {b₁ b₂ : List Byte}
    (h : msg.HasAt pos (b₁ ++ b₂)) : msg.HasAt pos b₁ := by
  intro i hi
  rw [h i (by rw [List.length_append]; omega), List.getElem_append_left hi]

theorem Message.HasAt.right {msg : Message} {pos : Nat} {b₁ b₂ : List Byte}
    (h : msg.HasAt pos (b₁ ++ b₂)) : msg.HasAt (pos + b₁.length) b₂ := by
  intro i hi
  rw [Nat.add_assoc, h (b₁.length + i) (by rw [List.length_append]; omega),
    List.getElem_append_right (by omega)]
  congr 1
  omega

/-- The events of the command loop in a trace. -/
def loopEvents (trace : List Event) : List Event := trace.filter Event.ofLoop

theorem loopEvents_append (trace es : List Event) :
    loopEvents (trace ++ es) = loopEvents trace ++ loopEvents es := List.filter_append ..

theorem loopEvents_silent (trace : List Event) {es : List Event}
    (h : ∀ e ∈ es, e.ofLoop = false) : loopEvents (trace ++ es) = loopEvents trace := by
  have hnil : loopEvents es = [] := List.filter_eq_nil_iff.mpr fun e he => by simp [h e he]
  rw [loopEvents_append, hnil, List.append_nil]

/-- From `q` to `q'` exactly `n` bytes were taken and nothing else happened to the parse. -/
structure Took (n : Nat) (q q' : QwConnection) : Prop where
  readcount : q'.msgReadcount.toNat = q.msgReadcount.toNat + n
  badread : q'.msgBadread = q.msgBadread
  abort : q'.abort = q.abort
  events : loopEvents q'.trace = loopEvents q.trace

theorem Took.trans {n₁ n₂ : Nat} {q₁ q₂ q₃ : QwConnection} (h₁ : Took n₁ q₁ q₂)
    (h₂ : Took n₂ q₂ q₃) : Took (n₁ + n₂) q₁ q₃ where
  readcount := by rw [h₂.readcount, h₁.readcount, Nat.add_assoc]
  badread := h₂.badread.trans h₁.badread
  abort := h₂.abort.trans h₁.abort
  events := h₂.events.trans h₁.events

/-- The cursor stands in front of `bytes`, which are inside the message, and no read has
    been short. -/
structure InFrontOf (msg : Message) (bytes : List Byte) (q : QwConnection) : Prop where
  badread : q.msgBadread = false
  has : msg.HasAt q.msgReadcount.toNat bytes
  fits : q.msgReadcount.toNat + bytes.length ≤ msg.cursize

theorem InFrontOf.left {msg : Message} {b₁ b₂ : List Byte} {q : QwConnection}
    (h : InFrontOf msg (b₁ ++ b₂) q) : InFrontOf msg b₁ q :=
  ⟨h.badread, h.has.left, by have := h.fits; rw [List.length_append] at this; omega⟩

theorem InFrontOf.right_of {msg : Message} {b₁ b₂ : List Byte} {q q' : QwConnection}
    (h : InFrontOf msg (b₁ ++ b₂) q)
    (hrc : q'.msgReadcount.toNat = q.msgReadcount.toNat + b₁.length)
    (hbad : q'.msgBadread = false) : InFrontOf msg b₂ q' where
  badread := hbad
  has := by
    rw [hrc]
    exact h.has.right
  fits := by
    have := h.fits
    rw [List.length_append] at this
    rw [hrc]
    omega

theorem InFrontOf.right {msg : Message} {b₁ b₂ : List Byte} {q q' : QwConnection}
    (h : InFrontOf msg (b₁ ++ b₂) q) (ht : Took b₁.length q q') : InFrontOf msg b₂ q' :=
  h.right_of ht.readcount (ht.badread.trans h.badread)

/-- Code that takes exactly `bytes` wherever it finds them, and returns a `P`. -/
def Takes (msg : Message) (bytes : List Byte) {α : Type} (m : Parser α) (P : α → Prop) : Prop :=
  ∀ q, InFrontOf msg bytes q → ∃ a q', m q = (some a, q') ∧ P a ∧ Took bytes.length q q'

namespace Takes

variable {msg : Message} {α β : Type}

theorem bind {b₁ b₂ : List Byte} {m : Parser α} {f : α → Parser β} {P : α → Prop} {Q : β → Prop}
    (hm : Takes msg b₁ m P) (hf : ∀ a, P a → Takes msg b₂ (f a) Q) :
    Takes msg (b₁ ++ b₂) (m >>= f) Q := by
  intro q hq
  obtain ⟨a, q₁, h₁, ha, ht₁⟩ := hm q hq.left
  obtain ⟨b, q₂, h₂, hb, ht₂⟩ := hf a ha q₁ (hq.right ht₁)
  refine ⟨b, q₂, by rw [bind_some h₁, h₂], hb, ?_⟩
  rw [List.length_append]
  exact ht₁.trans ht₂

theorem seq {b₁ b₂ : List Byte} {m : Parser α} {m' : Parser β} {P : α → Prop} {Q : β → Prop}
    (hm : Takes msg b₁ m P) (hm' : Takes msg b₂ m' Q) :
    Takes msg (b₁ ++ b₂) (m >>= fun _ => m') Q := hm.bind fun _ _ => hm'

/-- Code that takes nothing, in front of code that takes `bytes`. -/
theorem after {bytes : List Byte} {m : Parser α} {m' : Parser β} {P : α → Prop} {Q : β → Prop}
    (hm : Takes msg [] m P) (hm' : Takes msg bytes m' Q) :
    Takes msg bytes (m >>= fun _ => m') Q := hm.seq hm'

/-- Code that takes nothing, behind code that takes `bytes`. -/
theorem before {bytes : List Byte} {m : Parser α} {m' : Parser β} {P : α → Prop} {Q : β → Prop}
    (hm : Takes msg bytes m P) (hm' : Takes msg [] m' Q) :
    Takes msg bytes (m >>= fun _ => m') Q := by
  have h := hm.seq hm'
  rwa [List.append_nil] at h

theorem pure {a : α} {P : α → Prop} (ha : P a) : Takes msg [] (Pure.pure a : Parser α) P :=
  fun q _ => ⟨a, q, rfl, ha, rfl, rfl, rfl, rfl⟩

theorem ite {bytes : List Byte} {p : Prop} [Decidable p] {m₁ m₂ : Parser α} {P : α → Prop}
    (h₁ : Takes msg bytes m₁ P) (h₂ : Takes msg bytes m₂ P) :
    Takes msg bytes (if p then m₁ else m₂) P := by
  split
  · exact h₁
  · exact h₂

theorem mono {bytes : List Byte} {m : Parser α} {P Q : α → Prop} (h : Takes msg bytes m P)
    (hPQ : ∀ a, P a → Q a) : Takes msg bytes m Q := by
  intro q hq
  obtain ⟨a, q', hrun, ha, ht⟩ := h q hq
  exact ⟨a, q', hrun, hPQ a ha, ht⟩

/-- A change that parsing does not notice takes nothing. -/
theorem quiet {f : QwConnection → QwConnection} (h : ∀ q, Quiet q (f q))
    (habort : ∀ q, (f q).abort = q.abort) :
    Takes msg [] (RunM.modify f) fun _ => True := by
  intro q _
  obtain ⟨hrc, hbad, -⟩ := control_eq_iff.mp (h q).control
  obtain ⟨es, htrace, hes⟩ := (h q).events
  refine ⟨(), f q, rfl, trivial, by rw [hrc]; rfl, hbad, habort q, ?_⟩
  rw [htrace]
  exact loopEvents_silent _ fun e he => (hes e he).ofLoop

end Takes

/-- Moving the cursor over bytes that are there. -/
theorem took_advance {msg : Message} {bytes : List Byte} {q : QwConnection}
    (h : InFrontOf msg bytes q) : Took bytes.length q (q.advance bytes.length) where
  readcount := by
    have hcur := msg.cursize_lt
    have hfit := h.fits
    show (q.msgReadcount + BitVec.ofNat 32 bytes.length).toNat = _
    rw [BitVec.toNat_add, BitVec.toNat_ofNat]
    omega
  badread := rfl
  abort := rfl
  events := loopEvents_silent _ (derefs_not_ofLoop _ _)

/-- A checked read takes as many bytes as its size, whatever they are. -/
theorem takes_msgRead {msg : Message} (bytes : List Byte) (value : (Nat → Byte) → BitVec 32) :
    Takes msg bytes (msgRead msg bytes.length value)
      fun a => ∃ data, (∀ i (h : i < bytes.length), data i = bytes[i]) ∧ a = value data := by
  intro q hq
  have hcur := msg.cursize_lt
  have hfits := hq.fits
  have hfit : msg.Fits q.msgReadcount bytes.length :=
    (Message.fits_iff (by omega) (by omega)).mpr hfits
  rcases msgRead_spec msg bytes.length value q with ⟨-, hrun⟩ | ⟨hshort, -⟩
  · refine ⟨_, _, hrun, ⟨_, fun i hi => ?_, rfl⟩, took_advance hq⟩
    rw [← hq.has i hi, Message.at, BitVec.toNat_add, BitVec.toNat_ofNat]
    congr 1
    omega
  · exact absurd hfit hshort

/-! ## The readers take their fields -/

section Fields

variable (msg : Message)

theorem takes_msgReadByte (v : Byte) :
    Takes msg (Field.byte v).bytes (msgReadByte msg) fun c => c = v.setWidth 32 := by
  refine (takes_msgRead [v] _).mono ?_
  rintro a ⟨data, hdata, rfl⟩
  rw [show data 0 = v from hdata 0 (by simp)]

theorem takes_msgReadShort (v : BitVec 16) :
    Takes msg (Field.short v).bytes (msgReadShort msg) fun _ => True :=
  (takes_msgRead (littleEndian v 2) _).mono fun _ _ => trivial

theorem takes_msgReadCoord (v : BitVec 16) :
    Takes msg (Field.coord v).bytes (msgReadCoord msg) fun _ => True :=
  takes_msgReadShort msg v

theorem takes_msgReadLong (v : BitVec 32) :
    Takes msg (Field.long v).bytes (msgReadLong msg) fun _ => True :=
  (takes_msgRead (littleEndian v 4) _).mono fun _ _ => trivial

theorem takes_msgReadFloat (v : BitVec 32) :
    Takes msg (Field.float v).bytes (msgReadFloat msg) fun _ => True := by
  intro q hq
  refine ⟨_, _, rfl, trivial, ?_⟩
  have h := took_advance hq
  rwa [Field.bytes, littleEndian_length] at h ⊢

/-- The loop of `MSG_ReadString` stops behind the NUL. -/
theorem takes_msgReadStringLoop (s : List Byte) :
    ∀ room done, (∀ c ∈ s, c ≠ 0#8) → s.length < room →
      Takes msg (s ++ [0]) (msgReadStringLoop msg room done) fun string => string = done ++ s := by
  induction s with
  | nil =>
    intro room done _ hroom
    obtain ⟨room, rfl⟩ : ∃ r, room = r + 1 := ⟨room - 1, by simp at hroom; omega⟩
    show Takes msg ((Field.byte 0).bytes ++ []) _ _
    refine (takes_msgReadByte msg 0).bind fun c hc => ?_
    rw [if_pos (.inr (by rw [hc]; rfl))]
    exact .pure (by simp)
  | cons b s ih =>
    intro room done hs hroom
    obtain ⟨room, rfl⟩ : ∃ r, room = r + 1 := ⟨room - 1, by simp at hroom; omega⟩
    show Takes msg ((Field.byte b).bytes ++ (s ++ [0])) _ _
    refine (takes_msgReadByte msg b).bind fun c hc => ?_
    have hb : b ≠ 0#8 := hs b (by simp)
    -- a byte is neither -1 nor, here, 0
    have hc' : ¬(c = -1#32 ∨ c = 0#32) := by
      rw [hc]
      have hlt := b.isLt
      have hpos : b.toNat ≠ 0 := fun h => hb (BitVec.eq_of_toNat_eq h)
      rintro (h | h)
      · have := congrArg BitVec.toNat h
        simp at this
        omega
      · have := congrArg BitVec.toNat h
        simp at this
        omega
    rw [if_neg hc']
    have hwidth : c.setWidth 8 = b := by
      rw [hc]
      simp
    rw [hwidth]
    refine (ih room (done ++ [b]) (fun c hc => hs c (by simp [hc])) ?_).mono ?_
    · simp at hroom
      omega
    · rintro string rfl
      simp

theorem takes_msgReadString (s : CString) :
    Takes msg (Field.string s).bytes (msgReadString msg) fun string => string = s.chars := by
  have hloop := takes_msgReadStringLoop msg s.chars 2047 [] s.no_nul s.length_lt
  rw [Field.bytes, ← List.append_nil (s.chars ++ [0])]
  refine hloop.bind fun string hstring => ?_
  refine .after (.quiet (fun q => .of_eq rfl rfl) fun q => rfl) (.pure ?_)
  simpa using hstring

end Fields

end QwNet
