/-
  QwNet.Parser.Flush

  `svc_packetentities`.

  A full update has no old packet, so the loop of `ParsePacketEntities` makes one
  pass: the first entity has it flush the rest of the packet.
-/
import QwNet.Parser.Arms

namespace QwNet

open RunM

/-! ## A full update makes one pass -/

/-- The one pass that a full update makes. -/
def fullUpdatePass (msg : Message) (fuel : Nat) (deltasequence : BitVec 32) : Parser Unit := do
  let word ← msgReadWord msg
  let q ← RunM.get
  if q.msgBadread then
    setAbort
  else if word = 0#32 then
    RunM.modify (QwConnection.log
      [.setDeltaPoint (if deltasequence ≠ 0#32 then deltasequence else -1#32)])
  else
    flushInvalid msg fuel

/-- Every entity number is below the one that stands for the end of an empty packet. -/
theorem newnum_slt_oldnum (word : BitVec 32) (q : QwConnection) :
    (word &&& 511#32).slt ((q.oldPacket none).oldnum 0#32) = true := by
  have hle : (word &&& 511#32).toNat ≤ 511 := by
    rw [BitVec.toNat_and]
    exact Nat.and_le_right
  have hold : (q.oldPacket none).oldnum 0#32 = 9999#32 := rfl
  rw [hold, BitVec.slt_iff_toInt_lt, BitVec.toInt_eq_toNat_of_lt (by omega)]
  show ((word &&& 511#32).toNat : Int) < 9999
  omega

theorem packetEntitiesLoop_full (msg : Message) (newpacket : BitVec 32) (fuel innerFuel : Nat)
    (deltasequence : BitVec 32) :
    packetEntitiesLoop msg true newpacket none (innerFuel + 1) (fuel + 1) 0#32 0#32 deltasequence
      = fullUpdatePass msg (innerFuel + 1) deltasequence := by
  have hkeep : ∀ word, keepOldEntities msg true newpacket none (word &&& 511#32) (innerFuel + 1)
      (innerFuel + 1) 0#32 0#32
        = flushInvalid msg (innerFuel + 1) >>= fun _ => pure none := by
    intro word
    funext q
    rw [keepOldEntities, get_bind, if_pos (newnum_slt_oldnum word q), if_pos rfl]
  unfold packetEntitiesLoop fullUpdatePass
  congr 1
  funext word
  congr 1
  funext q
  rw [hkeep, bind_assoc]
  congr 2
  exact bind_pure_unit _

/-! ## What a full update does -/

section

variable (msg : Message) (fuel : Nat)

theorem steps_flushInvalid : Steps (Advances msg) (flushInvalid msg fuel) := by
  refine steps_bind Advances.trans ?_ fun _ => ?_
  · exact steps_loop (Advances.refl msg) Advances.trans (checked_flushPass msg 0).advances fuel
  · exact steps_modify fun q => .of_eq rfl rfl

theorem steps_fullUpdatePass (deltasequence : BitVec 32) :
    Steps (Advances msg) (fullUpdatePass msg fuel deltasequence) := by
  refine steps_bind Advances.trans (checked_msgReadWord msg 0).advances fun word =>
    steps_get_bind fun q => steps_ite (checked_setAbort msg 0).advances
      (steps_ite (steps_modify fun q => ?_) (steps_flushInvalid msg fuel))
  exact (Quiet.log q (by simp [Event.quiet])).advances msg

/-- The loop of a full update, with or without fuel. -/
theorem steps_packetEntitiesLoop (newpacket d : BitVec 32) :
    Steps (Advances msg) (packetEntitiesLoop msg true newpacket none fuel fuel 0#32 0#32 d) := by
  cases fuel with
  | zero => exact Advances.refl msg
  | succ fuel =>
    rw [packetEntitiesLoop_full]
    exact steps_fullUpdatePass msg _ d

theorem steps_parsePacketEntities :
    Steps (Advances msg) (parsePacketEntities msg fuel false) := by
  refine steps_get_bind fun q => ?_
  refine steps_bind Advances.trans (steps_modify fun q => .of_eq rfl rfl) fun _ => ?_
  refine steps_bind Advances.trans (steps_modify fun q => .of_eq rfl rfl) fun _ =>
    steps_get_bind fun q => ?_
  exact steps_packetEntitiesLoop msg fuel _ _

theorem extends_fullUpdatePass {fuel fuel' : Nat} (h : fuel ≤ fuel') (d : BitVec 32) :
    Extends (fullUpdatePass msg fuel d) (fullUpdatePass msg fuel' d) := by
  refine .bind (.refl _) fun word => .get_bind fun q => .ite (.refl _) (.ite (.refl _) ?_)
  exact .bind (.loop (.refl _) h) fun _ => .refl _

theorem extends_parsePacketEntities {fuel fuel' : Nat} (h : fuel ≤ fuel') :
    Extends (parsePacketEntities msg fuel false) (parsePacketEntities msg fuel' false) := by
  refine .get_bind fun q => .bind (.refl _) fun _ => .bind (.refl _) fun _ => .get_bind fun q => ?_
  cases fuel with
  | zero => exact fun _ _ _ h => nomatch (Prod.mk.inj h).1
  | succ fuel =>
    obtain ⟨fuel', rfl⟩ : ∃ n, fuel' = n + 1 := ⟨fuel' - 1, by omega⟩
    rw [packetEntitiesLoop_full, packetEntitiesLoop_full]
    exact extends_fullUpdatePass msg h _

end

end QwNet
