/-
  QwNet.Parser.Termination

  When `ParseServerMessage` terminates.

  `FlushEntityPacket` only stops at a zero word, which a short read never yields, and
  a `svc_download` with a negative size takes the cursor back.  Everything else
  brings the end of the message nearer.
-/
import Mathlib.Data.Finite.Prod
import QwNet.Parser.Unchecked

namespace QwNet

open RunM

/-! ## Entity lists -/

/-- The 16-bit word at the cursor. -/
def Message.wordAt (msg : Message) (readcount : BitVec 32) : BitVec 32 :=
  (msg.at readcount 1 ++ msg.at readcount 0).setWidth 32

/-- How many bytes `ParseDelta` reads for `word`: the low flags are masked away before
    they are looked at. -/
def deltaLength (word : BitVec 32) : Nat :=
  (if word &&& 0x2000#32 ≠ 0#32 then 1 else 0) + (if word &&& 0x0200#32 ≠ 0#32 then 2 else 0)
    + (if word &&& 0x0400#32 ≠ 0#32 then 2 else 0) + (if word &&& 0x1000#32 ≠ 0#32 then 1 else 0)
    + (if word &&& 0x0800#32 ≠ 0#32 then 2 else 0)

/-- From `pos` on there are entities, as `ParseDelta` reads them, up to a zero word. -/
inductive EntityList (msg : Message) : BitVec 32 → Prop where
  | nil {pos : BitVec 32} (hfit : msg.Fits pos 2) (hword : msg.wordAt pos = 0#32) :
      EntityList msg pos
  | cons {pos : BitVec 32} (hfit : msg.Fits pos 2) (hword : msg.wordAt pos ≠ 0#32)
      (hrest : EntityList msg (pos + BitVec.ofNat 32 (2 + deltaLength (msg.wordAt pos)))) :
      EntityList msg pos

theorem EntityList.fits {msg : Message} {pos : BitVec 32} (h : EntityList msg pos) :
    msg.Fits pos 2 := by
  cases h with
  | nil hfit => exact hfit
  | cons hfit => exact hfit

/-- `m` moves the cursor over `n` bytes, or stops too near to the end for another word. -/
structure Covers (msg : Message) (n : Nat) {α : Type} (m : Parser α) : Prop where
  checked : ∀ fuel, Checked msg fuel m
  moves : ∀ q, q.msgReadcount.toNat ≤ msg.cursize →
    (m q).2.msgReadcount.toNat ≤ q.msgReadcount.toNat + n ∧
      ((m q).2.msgReadcount.toNat = q.msgReadcount.toNat + n ∨
        msg.cursize < (m q).2.msgReadcount.toNat + 2)

namespace Covers

variable {msg : Message} {α β : Type}

theorem ends {n : Nat} {m : Parser α} (h : Covers msg n m) (q : QwConnection) :
    ∃ a q', m q = (some a, q') := (h.checked _).ends q (Nat.lt_succ_self _)

theorem pure (a : α) : Covers msg 0 (Pure.pure a : Parser α) :=
  ⟨fun _ => .pure a, fun _ _ => ⟨Nat.le_refl _, .inl rfl⟩⟩

theorem bind {n₁ n₂ : Nat} {m : Parser α} {f : α → Parser β} (hm : Covers msg n₁ m)
    (hf : ∀ a, Covers msg n₂ (f a)) : Covers msg (n₁ + n₂) (m >>= f) where
  checked fuel := .bind (hm.checked fuel) fun a => (hf a).checked fuel
  moves q hq := by
    obtain ⟨a, q₁, h₁⟩ := hm.ends q
    have hadv₁ := (hm.checked 0).advances q
    obtain ⟨hle₁, hend₁⟩ := hm.moves q hq
    rw [h₁] at hadv₁ hle₁ hend₁
    dsimp only at hle₁ hend₁
    have hq₁ := (hadv₁.bound hq).2
    obtain ⟨hle₂, hend₂⟩ := (hf a).moves q₁ hq₁
    have hmono := ((((hf a).checked 0).advances q₁).bound hq₁).1
    rw [bind_some h₁]
    omega

theorem seq {n₁ n₂ : Nat} {m : Parser α} {m' : Parser β} (hm : Covers msg n₁ m)
    (hm' : Covers msg n₂ m') : Covers msg (n₁ + n₂) (m >>= fun _ => m') := hm.bind fun _ => hm'

theorem read {size : Nat} (hsize : size ≤ 2) (value : (Nat → Byte) → BitVec 32) :
    Covers msg size (msgRead msg size value) where
  checked fuel := .read (by omega) value
  moves q hq := by
    have hcur := msg.cursize_lt
    rcases msgRead_spec msg size value q with ⟨hfit, hrun⟩ | ⟨hfit, hrun⟩
    · rw [Message.fits_iff hq (by omega)] at hfit
      have hmove : (q.advance size).msgReadcount.toNat = q.msgReadcount.toNat + size := by
        show (q.msgReadcount + BitVec.ofNat 32 size).toNat = _
        rw [BitVec.toNat_add, BitVec.toNat_ofNat]
        omega
      rw [hrun]
      exact ⟨Nat.le_of_eq hmove, .inl hmove⟩
    · rw [Message.fits_iff hq (by omega)] at hfit
      rw [hrun]
      exact ⟨Nat.le_add_right _ _, .inr (by show _ < q.msgReadcount.toNat + 2; omega)⟩

theorem readIf {size : Nat} {read : Parser (BitVec 32)} (hread : Covers msg size read)
    (bits flag : BitVec 32) :
    Covers msg (if bits &&& flag ≠ 0#32 then size else 0) (QwNet.readIf bits flag read) := by
  unfold QwNet.readIf
  split
  · exact hread.seq (.pure ())
  · exact .pure ()

end Covers

/-- The word without its low flags has the flag, or not, as the word has. -/
theorem masked_and (word flag : BitVec 32) (h : ~~~511#32 &&& flag = flag) :
    word &&& ~~~511#32 &&& flag = word &&& flag := by
  rw [BitVec.and_assoc, h]

theorem masked_and_low (word flag : BitVec 32) (h : ~~~511#32 &&& flag = 0#32) :
    word &&& ~~~511#32 &&& flag = 0#32 := by
  rw [BitVec.and_assoc, h, BitVec.and_zero]

/-- The flags that are left over from masking are those of the word itself. -/
theorem parseDelta_eq (msg : Message) (word : BitVec 32) :
    parseDelta msg word = (readIf word 0x2000#32 (msgReadByte msg) >>= fun _ =>
      readIf word 0x0200#32 (msgReadCoord msg) >>= fun _ =>
      readIf word 0x0400#32 (msgReadCoord msg) >>= fun _ =>
      readIf word 0x1000#32 (msgReadAngle msg) >>= fun _ =>
      readIf word 0x0800#32 (msgReadCoord msg)) := by
  have hlow := masked_and_low word
  have hhigh := masked_and word
  unfold parseDelta readIf
  simp only [hlow 0x0004#32 (by decide), hlow 0x0008#32 (by decide), hlow 0x0010#32 (by decide),
    hlow 0x0020#32 (by decide), hlow 0x0001#32 (by decide), hlow 0x0002#32 (by decide),
    hhigh 0x2000#32 (by decide), hhigh 0x0200#32 (by decide), hhigh 0x0400#32 (by decide),
    hhigh 0x1000#32 (by decide), hhigh 0x0800#32 (by decide), ne_eq, not_true_eq_false, if_false,
    pure_bind', RunM.bind_pure_unit]

theorem covers_parseDelta (msg : Message) (word : BitVec 32) :
    Covers msg (deltaLength word) (parseDelta msg word) := by
  have hbyte : Covers msg 1 (msgReadByte msg) := .read (by omega) _
  have hchar : Covers msg 1 (msgReadChar msg) := .read (by omega) _
  have hangle : Covers msg 1 (msgReadAngle msg) := hchar
  have hshort : Covers msg 2 (msgReadShort msg) := .read (by omega) _
  have hcoord : Covers msg 2 (msgReadCoord msg) := hshort
  rw [parseDelta_eq]
  have h := (hbyte.readIf word 0x2000#32).seq ((hcoord.readIf word 0x0200#32).seq
    ((hcoord.readIf word 0x0400#32).seq ((hangle.readIf word 0x1000#32).seq
      (hcoord.readIf word 0x0800#32))))
  simpa only [deltaLength, Nat.add_assoc] using h

/-! ## The flush ends at the zero word -/

theorem signExtend_and_low (x : BitVec 16) : x.signExtend 32 &&& 0xffff#32 = x.setWidth 32 := by
  have h := x.isLt
  apply BitVec.eq_of_toNat_eq
  rw [BitVec.toNat_and, BitVec.toNat_signExtend, BitVec.toNat_setWidth,
    show (0xffff#32).toNat = 2 ^ 16 - 1 from rfl, Nat.and_two_pow_sub_one_eq_mod]
  split <;> simp <;> omega

section Flush

variable {msg : Message} {q : QwConnection}

theorem msgReadWord_fits (h : msg.Fits q.msgReadcount 2) :
    msgReadWord msg q = (some (msg.wordAt q.msgReadcount), q.advance 2) := by
  rw [msgReadWord, bind_some (msgReadShort_fits h), signExtend_and_low]
  rfl

theorem msgReadWord_short (h : ¬msg.Fits q.msgReadcount 2) :
    msgReadWord msg q = (some 0xffff#32, q.markBadread) := by
  rw [msgReadWord, bind_some (msgReadShort_short h)]
  rfl

/-- A pass that is not the last one goes on behind one entity. -/
theorem flushPass_goes_on {word : BitVec 32} {q₁ : QwConnection}
    (hread : msgReadWord msg q = (some word, q₁)) (hword : word ≠ 0#32) :
    ∃ q₂, flushPass msg q = (some none, q₂) ∧ parseDelta msg word q₁ = (some (), q₂) := by
  obtain ⟨_, q₂, hdelta⟩ := (covers_parseDelta msg word).ends q₁
  refine ⟨q₂, ?_, hdelta⟩
  rw [flushPass, bind_some hread, if_neg hword, bind_some hdelta]
  rfl

/-- The zero word ends the flush. -/
theorem flush_zero (fuel : Nat) (hfit : msg.Fits q.msgReadcount 2)
    (hzero : msg.wordAt q.msgReadcount = 0#32) :
    flushEntityPacket msg (fuel + 1) q = (some (), q.advance 2) := by
  have hpass : flushPass msg q = (some (some ()), q.advance 2) := by
    rw [flushPass, bind_some (msgReadWord_fits hfit), if_pos hzero]
    rfl
  exact loop_done hpass fuel

end Flush

/-! ## Passes that end -/

section Passes

variable {msg : Message} {q : QwConnection} (env : Env)

end Passes

/-! ## The measure -/

/-- If the loop does not stop at `q'`, the end is as near as it was at `q`. -/
def Nearer (msg : Message) (q q' : QwConnection) : Prop :=
  q'.msgBadread = false → msg.Fits q'.msgReadcount 1 →
    msg.left q'.msgReadcount ≤ msg.left q.msgReadcount

section Measure

variable {msg : Message} {q q' : QwConnection}

/-- A cursor at which a byte fits is inside the message, unless it is the last number. -/
theorem Message.Fits.lt {readcount : BitVec 32} (h : msg.Fits readcount 1)
    (hlast : readcount.toNat + 1 < 2 ^ 32) : readcount.toNat + 1 ≤ msg.cursize := by
  have h' := h
  rwa [Message.Fits, toNat_add_ofNat hlast] at h'

theorem Nearer.quiet {q₁ : QwConnection} (h : Nearer msg q q₁) (hquiet : Quiet q₁ q') :
    Nearer msg q q' := by
  obtain ⟨hrc, hbad, -⟩ := control_eq_iff.mp hquiet.control
  rw [Nearer, hrc, hbad]
  exact h

end Measure

/-! ## Whole messages -/

section Runs

variable {msg : Message} {env : Env} {q : QwConnection}

instance finite_bitVec : Finite (BitVec 32) :=
  Finite.of_injective BitVec.toFin fun _ _ => BitVec.eq_of_toFin_eq

end Runs

end QwNet
