/-
  QwNet.Parser.Checked

  Code that touches the message through the checked readers only.

  Such code moves the cursor forward inside the message or not at all, its course
  depends on the cursor, `msg_badread` and the protocol version, and it ends when
  its loops have more fuel than there are bytes left.  `Checked` is closed under
  the ways code is put together, and every arm of the switch but those that read
  floats, flush entities or download is of this kind.
-/
import QwNet.Parser.ServerMessage

namespace QwNet

open RunM

/-! ## The distance to the end of the message -/

/-- How many bytes are left from the cursor on, in 32-bit arithmetic. -/
def Message.left (msg : Message) (readcount : BitVec 32) : Nat :=
  (BitVec.ofNat 32 msg.cursize - readcount).toNat

theorem toNat_add_ofNat {readcount : BitVec 32} {n : Nat} (h : readcount.toNat + n < 2 ^ 32) :
    (readcount + BitVec.ofNat 32 n).toNat = readcount.toNat + n := by
  rw [BitVec.toNat_add, BitVec.toNat_ofNat]
  omega

/-- A read that fits brings the end nearer by its size. -/
theorem Message.Fits.left_add {msg : Message} {readcount : BitVec 32} {size : Nat}
    (h : msg.Fits readcount size) (hsize : size < 2 ^ 31) :
    msg.left (readcount + BitVec.ofNat 32 size) + size = msg.left readcount := by
  have hcur := msg.cursize_lt
  have hrc := readcount.isLt
  simp only [Message.Fits, Message.left, BitVec.toNat_sub, BitVec.toNat_add,
    BitVec.toNat_ofNat] at h ⊢
  omega

/-- Inside the message a read fits iff its bytes do. -/
theorem Message.fits_iff {msg : Message} {readcount : BitVec 32} {size : Nat}
    (hrc : readcount.toNat ≤ msg.cursize) (hsize : size < 2 ^ 31) :
    msg.Fits readcount size ↔ readcount.toNat + size ≤ msg.cursize := by
  have hcur := msg.cursize_lt
  simp only [Message.Fits, BitVec.toNat_add, BitVec.toNat_ofNat]
  omega

/-! ## What checked code does to the connection -/

/-- The event is one of the command loop itself. -/
def Event.ofLoop : Event → Bool
  | .dispatch _ _ => true
  | .endOfMessage _ => true
  | _ => false

/-- The event accesses the message below `cursize` only. -/
def Event.InBounds (cursize : Nat) : Event → Prop
  | .deref index => index < cursize
  | .fwrite start count _ => ∀ i < count, start + i < cursize
  | _ => True

/-- The event accesses no message and is neither an abort nor one of the command loop. -/
def Event.quiet : Event → Prop
  | .deref _ | .fwrite .. | .dispatch .. | .endOfMessage _ | .abort => False
  | _ => True

theorem Event.quiet.ofLoop {e : Event} (h : e.quiet) : e.ofLoop = false := by
  cases e <;> first | rfl | exact False.elim h

theorem Event.quiet.inBounds {e : Event} (h : e.quiet) (cursize : Nat) : e.InBounds cursize := by
  cases e <;> first | exact False.elim h | exact trivial

/-- From `q` to `q'` the cursor only moved towards the end of the message and, if it was
    inside the message, every access was. -/
structure Advances (msg : Message) (q q' : QwConnection) : Prop where
  left_le : msg.left q'.msgReadcount ≤ msg.left q.msgReadcount
  badread : q.msgBadread = true → q'.msgBadread = true
  bound : q.msgReadcount.toNat ≤ msg.cursize →
    q.msgReadcount.toNat ≤ q'.msgReadcount.toNat ∧ q'.msgReadcount.toNat ≤ msg.cursize
  events : ∃ es, q'.trace = q.trace ++ es ∧ (∀ e ∈ es, e.ofLoop = false) ∧
    (q.msgReadcount.toNat ≤ msg.cursize → ∀ e ∈ es, e.InBounds msg.cursize)

theorem Advances.refl (msg : Message) (q : QwConnection) : Advances msg q q where
  left_le := Nat.le_refl _
  badread := id
  bound h := ⟨Nat.le_refl _, h⟩
  events := ⟨[], (List.append_nil _).symm, by simp, by simp⟩

theorem Advances.trans {msg : Message} (q₁ q₂ q₃ : QwConnection) (h₁ : Advances msg q₁ q₂)
    (h₂ : Advances msg q₂ q₃) : Advances msg q₁ q₃ where
  left_le := Nat.le_trans h₂.left_le h₁.left_le
  badread := h₂.badread ∘ h₁.badread
  bound h := by
    obtain ⟨hle, hle'⟩ := h₁.bound h
    exact ⟨Nat.le_trans hle (h₂.bound hle').1, (h₂.bound hle').2⟩
  events := by
    obtain ⟨es₁, htrace₁, hloop₁, hin₁⟩ := h₁.events
    obtain ⟨es₂, htrace₂, hloop₂, hin₂⟩ := h₂.events
    refine ⟨es₁ ++ es₂, by rw [htrace₂, htrace₁, List.append_assoc], ?_, fun h => ?_⟩
    · exact List.forall_mem_append.mpr ⟨hloop₁, hloop₂⟩
    · exact List.forall_mem_append.mpr ⟨hin₁ h, hin₂ (h₁.bound h).2⟩

/-- The part of the connection that the course of a parse depends on. -/
def control (q : QwConnection) : BitVec 32 × Bool × BitVec 32 :=
  (q.msgReadcount, q.msgBadread, q.protoversion)

theorem control_eq_iff {q q' : QwConnection} :
    control q = control q' ↔ q.msgReadcount = q'.msgReadcount ∧ q.msgBadread = q'.msgBadread ∧
      q.protoversion = q'.protoversion := by
  simp [control]

/-- A change that the course of a parse does not notice, and that accesses no message. -/
structure Quiet (q q' : QwConnection) : Prop where
  control : control q' = control q
  events : ∃ es, q'.trace = q.trace ++ es ∧ ∀ e ∈ es, e.quiet

theorem Quiet.of_eq {q q' : QwConnection} (hcontrol : QwNet.control q' = QwNet.control q)
    (htrace : q'.trace = q.trace) : Quiet q q' where
  control := hcontrol
  events := ⟨[], by simp [htrace], by simp⟩

theorem Quiet.log {es : List Event} (q : QwConnection)
    (h : ∀ e ∈ es, e.quiet) : Quiet q (q.log es) where
  control := rfl
  events := ⟨es, rfl, h⟩

theorem Quiet.refl (q : QwConnection) : Quiet q q := .of_eq rfl rfl

theorem Quiet.trans {q₁ q₂ q₃ : QwConnection} (h₁ : Quiet q₁ q₂) (h₂ : Quiet q₂ q₃) :
    Quiet q₁ q₃ where
  control := h₂.control.trans h₁.control
  events := by
    obtain ⟨es₁, htrace₁, hquiet₁⟩ := h₁.events
    obtain ⟨es₂, htrace₂, hquiet₂⟩ := h₂.events
    exact ⟨es₁ ++ es₂, by rw [htrace₂, htrace₁, List.append_assoc],
      List.forall_mem_append.mpr ⟨hquiet₁, hquiet₂⟩⟩

theorem Quiet.append (text : List Byte) (q : QwConnection) : Quiet q (q.append text) := by
  unfold QwConnection.append
  split
  · exact .log q (by simp [Event.quiet])
  · exact .refl q

theorem Quiet.advances {q q' : QwConnection} (h : Quiet q q') (msg : Message) :
    Advances msg q q' := by
  obtain ⟨hrc, hbad, -⟩ := control_eq_iff.mp h.control
  obtain ⟨es, htrace, hquiet⟩ := h.events
  refine ⟨Nat.le_of_eq (by rw [hrc]), by rw [hbad]; exact id, fun hle => ?_, es, htrace, ?_, fun _ => ?_⟩
  · rw [hrc]
    exact ⟨Nat.le_refl _, hle⟩
  · exact fun e he => (hquiet e he).ofLoop
  · exact fun e he => (hquiet e he).inBounds _

theorem Advances.of_eq {msg : Message} {q q' : QwConnection}
    (hcontrol : QwNet.control q' = QwNet.control q) (htrace : q'.trace = q.trace) :
    Advances msg q q' := (Quiet.of_eq hcontrol htrace).advances msg

/-! ## One checked read -/

/-- A checked read either fits and moves the cursor past its bytes, or is short. -/
theorem msgRead_spec (msg : Message) (size : Nat) (value : (Nat → Byte) → BitVec 32)
    (q : QwConnection) :
    (msg.Fits q.msgReadcount size ∧
      msgRead msg size value q = (some (value (msg.at q.msgReadcount)), q.advance size)) ∨
    (¬msg.Fits q.msgReadcount size ∧
      msgRead msg size value q = (some (-1#32), q.markBadread)) := by
  unfold msgRead
  by_cases h : msg.Fits q.msgReadcount size
  · exact .inl ⟨h, if_pos h⟩
  · exact .inr ⟨h, if_neg h⟩

theorem msgReadByte_fits {msg : Message} {q : QwConnection} (h : msg.Fits q.msgReadcount 1) :
    msgReadByte msg q = (some ((msg.at q.msgReadcount 0).setWidth 32), q.advance 1) := if_pos h

theorem msgReadByte_short {msg : Message} {q : QwConnection} (h : ¬msg.Fits q.msgReadcount 1) :
    msgReadByte msg q = (some (-1#32), q.markBadread) := if_neg h

theorem msgReadShort_fits {msg : Message} {q : QwConnection} (h : msg.Fits q.msgReadcount 2) :
    msgReadShort msg q = (some ((msg.at q.msgReadcount 1 ++ msg.at q.msgReadcount 0).signExtend 32),
      q.advance 2) := if_pos h

theorem msgReadShort_short {msg : Message} {q : QwConnection} (h : ¬msg.Fits q.msgReadcount 2) :
    msgReadShort msg q = (some (-1#32), q.markBadread) := if_neg h

theorem derefs_inBounds {msg : Message} {readcount : BitVec 32} {size : Nat}
    (h : readcount.toNat + size ≤ msg.cursize) :
    ∀ e ∈ derefs readcount size, e.InBounds msg.cursize := by
  have hcur := msg.cursize_lt
  intro e he
  obtain ⟨k, hk, rfl⟩ := List.mem_map.mp he
  have := List.mem_range.mp hk
  show (readcount + BitVec.ofNat 32 k).toNat < msg.cursize
  rw [BitVec.toNat_add, BitVec.toNat_ofNat]
  omega

theorem derefs_not_ofLoop (readcount : BitVec 32) (size : Nat) :
    ∀ e ∈ derefs readcount size, e.ofLoop = false := by
  intro e he
  obtain ⟨k, -, rfl⟩ := List.mem_map.mp he
  rfl

/-- Moving past bytes that are there is an advance. -/
theorem advances_advance {msg : Message} {q : QwConnection} {size : Nat}
    (h : msg.Fits q.msgReadcount size) (hsize : size < 2 ^ 31) : Advances msg q (q.advance size) where
  left_le := by
    have := h.left_add hsize
    show msg.left (q.msgReadcount + BitVec.ofNat 32 size) ≤ _
    omega
  badread := id
  bound hle := by
    have hcur := msg.cursize_lt
    rw [Message.fits_iff hle hsize] at h
    show _ ≤ (q.msgReadcount + BitVec.ofNat 32 size).toNat ∧
      (q.msgReadcount + BitVec.ofNat 32 size).toNat ≤ _
    rw [BitVec.toNat_add, BitVec.toNat_ofNat]
    omega
  events := ⟨_, rfl, derefs_not_ofLoop _ _, fun hle =>
    derefs_inBounds ((Message.fits_iff hle hsize).mp h)⟩

theorem advances_badread (msg : Message) (q : QwConnection) :
    Advances msg q q.markBadread where
  left_le := Nat.le_refl _
  badread _ := rfl
  bound h := ⟨Nat.le_refl _, h⟩
  events := ⟨[], (List.append_nil _).symm, by simp, by simp⟩

/-! ## Checked code -/

/-- `m` touches the message through the checked readers only, and ends when its loops
    have more fuel than bytes are left. -/
structure Checked (msg : Message) (fuel : Nat) {α : Type} (m : Parser α) : Prop where
  advances : Steps (Advances msg) m
  alike : Alike control m m
  ends : ∀ q, msg.left q.msgReadcount < fuel → ∃ a q', m q = (some a, q')

namespace Checked

variable {msg : Message} {fuel : Nat} {α β : Type}

theorem pure (a : α) : Checked msg fuel (Pure.pure a : Parser α) where
  advances := steps_pure (Advances.refl msg) a
  alike := alike_pure a
  ends q _ := ⟨a, q, rfl⟩

theorem bind {m : Parser α} {f : α → Parser β} (hm : Checked msg fuel m)
    (hf : ∀ a, Checked msg fuel (f a)) : Checked msg fuel (m >>= f) where
  advances := steps_bind Advances.trans hm.advances fun a => (hf a).advances
  alike := alike_bind hm.alike fun a => (hf a).alike
  ends q hq := by
    obtain ⟨a, q₁, h₁⟩ := hm.ends q hq
    have hadv := hm.advances q
    rw [h₁] at hadv
    obtain ⟨b, q₂, h₂⟩ := (hf a).ends q₁ (Nat.lt_of_le_of_lt hadv.left_le hq)
    exact ⟨b, q₂, by rw [bind_some h₁, h₂]⟩

theorem ite {p : Prop} [Decidable p] {m₁ m₂ : Parser α} (h₁ : Checked msg fuel m₁)
    (h₂ : Checked msg fuel m₂) : Checked msg fuel (if p then m₁ else m₂) := by
  split
  · exact h₁
  · exact h₂

theorem modify {f : QwConnection → QwConnection} (hadv : ∀ q, Advances msg q (f q))
    (hcontrol : ∀ q q', control q = control q' → control (f q) = control (f q')) :
    Checked msg fuel (RunM.modify f) where
  advances := steps_modify hadv
  alike := alike_modify hcontrol
  ends q _ := ⟨(), f q, rfl⟩

theorem quiet {f : QwConnection → QwConnection} (h : ∀ q, Quiet q (f q)) :
    Checked msg fuel (RunM.modify f) :=
  modify (fun q => (h q).advances msg) fun q q' heq => by rw [(h q).control, (h q').control, heq]

/-- The protocol version may be looked at. -/
theorem protoversion {f : BitVec 32 → Parser β} (hf : ∀ v, Checked msg fuel (f v)) :
    Checked msg fuel (RunM.get >>= fun q => f q.protoversion) where
  advances q := (hf q.protoversion).advances q
  alike := by
    refine alike_get_bind fun q q' heq => ?_
    rw [(control_eq_iff.mp heq).2.2]
    exact (hf _).alike
  ends q hq := (hf q.protoversion).ends q hq

theorem read {size : Nat} (hsize : size < 2 ^ 31) (value : (Nat → Byte) → BitVec 32) :
    Checked msg fuel (msgRead msg size value) where
  advances q := by
    rcases msgRead_spec msg size value q with ⟨hfit, hrun⟩ | ⟨-, hrun⟩
    · rw [hrun]
      exact advances_advance hfit hsize
    · rw [hrun]
      exact advances_badread msg q
  alike q q' heq := by
    obtain ⟨hrc, hbad, hver⟩ := control_eq_iff.mp heq
    rcases msgRead_spec msg size value q with ⟨hfit, hrun⟩ | ⟨hfit, hrun⟩ <;>
      rcases msgRead_spec msg size value q' with ⟨hfit', hrun'⟩ | ⟨hfit', hrun'⟩ <;>
        rw [hrun, hrun']
    · refine ⟨by rw [hrc], control_eq_iff.mpr ⟨?_, hbad, hver⟩⟩
      exact congrArg (· + BitVec.ofNat 32 size) hrc
    · exact absurd (hrc ▸ hfit) hfit'
    · exact absurd (hrc ▸ hfit') hfit
    · exact ⟨rfl, control_eq_iff.mpr ⟨hrc, rfl, hver⟩⟩
  ends q _ := by
    rcases msgRead_spec msg size value q with ⟨-, hrun⟩ | ⟨-, hrun⟩
    · exact ⟨_, _, hrun⟩
    · exact ⟨_, _, hrun⟩

/-- A loop whose body reads something whenever it goes on. -/
theorem loop {body : Parser (Option β)} (hb : ∀ fuel, Checked msg fuel body)
    (hreads : ∀ q q', body q = (some none, q') →
      msg.left q'.msgReadcount < msg.left q.msgReadcount) :
    Checked msg fuel (RunM.loop body fuel) where
  advances := steps_loop (Advances.refl msg) Advances.trans (hb 0).advances fuel
  alike := alike_loop (hb 0).alike fuel
  ends := by
    induction fuel with
    | zero => exact fun q hq => absurd hq (Nat.not_lt_zero _)
    | succ fuel ih =>
      intro q hq
      obtain ⟨r, q₁, h₁⟩ := (hb (fuel + 1)).ends q hq
      cases r with
      | some b => exact ⟨b, q₁, loop_done h₁ fuel⟩
      | none =>
        rw [loop_next h₁]
        have := hreads q q₁ h₁
        exact ih q₁ (by omega)

end Checked

/-- A checked read of something that returned anything but -1 brought the end nearer. -/
theorem left_lt_of_msgRead {msg : Message} {size : Nat} {value : (Nat → Byte) → BitVec 32}
    {q q' : QwConnection} {a : BitVec 32} (hpos : 0 < size) (hsize : size < 2 ^ 31)
    (h : msgRead msg size value q = (some a, q')) (ha : a ≠ -1#32) :
    msg.left q'.msgReadcount < msg.left q.msgReadcount := by
  rcases msgRead_spec msg size value q with ⟨hfit, hrun⟩ | ⟨-, hrun⟩
  · rw [hrun] at h
    obtain rfl := (Prod.mk.inj h).2
    have := hfit.left_add hsize
    show msg.left (q.msgReadcount + BitVec.ofNat 32 size) < _
    omega
  · rw [hrun] at h
    exact absurd (Option.some.inj (Prod.mk.inj h).1).symm ha

/-! ## The readers -/

section Readers

variable (msg : Message) (fuel : Nat)

theorem checked_msgReadLong : Checked msg fuel (msgReadLong msg) := .read (by omega) _

theorem checked_msgReadShort : Checked msg fuel (msgReadShort msg) := .read (by omega) _

theorem checked_msgReadByte : Checked msg fuel (msgReadByte msg) := .read (by omega) _

theorem checked_msgReadChar : Checked msg fuel (msgReadChar msg) := .read (by omega) _

theorem checked_msgReadCoord : Checked msg fuel (msgReadCoord msg) :=
  checked_msgReadShort msg fuel

theorem checked_msgReadAngle : Checked msg fuel (msgReadAngle msg) :=
  checked_msgReadChar msg fuel

theorem checked_msgReadAngle16 : Checked msg fuel (msgReadAngle16 msg) :=
  checked_msgReadShort msg fuel

theorem checked_msgReadStringLoop (room : Nat) (string : List Byte) :
    Checked msg fuel (msgReadStringLoop msg room string) := by
  induction room generalizing string with
  | zero => exact .pure string
  | succ room ih => exact .bind (checked_msgReadByte msg fuel) fun c => .ite (.pure _) (ih _)

theorem checked_msgReadString : Checked msg fuel (msgReadString msg) :=
  .bind (checked_msgReadStringLoop msg fuel _ _) fun _ =>
    .bind (.quiet fun _ => .of_eq rfl rfl) fun _ => .pure _

theorem checked_readIf (bits flag : BitVec 32) {read : Parser (BitVec 32)}
    (h : Checked msg fuel read) : Checked msg fuel (readIf bits flag read) :=
  .ite (.bind h fun _ => .pure _) (.pure _)

theorem checked_msgReadDeltaUsercmd : Checked msg fuel (msgReadDeltaUsercmd msg) := by
  refine .bind (checked_msgReadByte msg fuel) fun bits => ?_
  have hshort := fun flag => checked_readIf msg fuel bits flag (checked_msgReadShort msg fuel)
  have hchar := fun flag => checked_readIf msg fuel bits flag (checked_msgReadChar msg fuel)
  have hbyte := fun flag => checked_readIf msg fuel bits flag (checked_msgReadByte msg fuel)
  refine .protoversion fun version => .bind (.ite ?_ ?_) fun _ => ?_
  · exact .bind (hshort _) fun _ => .bind (checked_msgReadAngle16 msg fuel) fun _ =>
      .bind (hshort _) fun _ => .bind (hchar _) fun _ => .bind (hchar _) fun _ => hchar _
  · exact .bind (hshort _) fun _ => .bind (hshort _) fun _ => .bind (hshort _) fun _ =>
      .bind (hshort _) fun _ => .bind (hshort _) fun _ => hshort _
  · exact .bind (hbyte _) fun _ => .bind (hbyte _) fun _ =>
      .ite (hbyte _) (.bind (checked_msgReadByte msg fuel) fun _ => .pure _)

end Readers

end QwNet
