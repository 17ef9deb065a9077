/-
  QwNet.Parser.FullUpdate

  `ParsePacketEntities` on a full update.

  A full update has no old packet, so every entity number is compared with 9999.  The
  first of two comparisons, the one that drops old entities, comes out true: every
  update is taken for one that an old entity is missing for, and flushed.
-/
import QwNet.Parser.Effects
import QwNet.Parser.Entities

namespace QwNet

open RunM

/-- `U_REMOVE`. -/
def removeFlag : BitVec 16 := 0x4000#16

/-- `MAX_MVD_PACKET_ENTITIES`. -/
def maxPacketEntities : Nat := 300

/-- The body of a `svc_packetentities`: updates of different entities, in order. -/
structure FullUpdate where
  updates : List (EntityUpdate true)
  no_remove : ∀ e ∈ updates, e.word &&& removeFlag = 0#16
  increasing : updates.Pairwise fun e e' => e.number < e'.number
  length_le : updates.length ≤ maxPacketEntities

/-- The bytes of the body. -/
def FullUpdate.encode (u : FullUpdate) : List Byte := EntityUpdate.encodeList u.updates

/-- The body is parsed completely and becomes the delta base. -/
def BecomesBase (msg : Message) (u : FullUpdate) (q : QwConnection) : Prop :=
  ∃ fuel q', parsePacketEntities msg fuel false q = (some (), q') ∧
    q'.msgReadcount.toNat = q.msgReadcount.toNat + u.encode.length ∧ q'.msgBadread = false ∧
    q'.validsequence = q.netchan.incomingSequence ∧
    .setDeltaPoint q.netchan.incomingSequence ∈ newEvents q q'

/-- The connection when the loop of an update is entered. -/
def QwConnection.updating (q : QwConnection) : QwConnection :=
  beginUpdate (q.netchan.incomingSequence &&& updateMask)
    (clearInvalid (q.netchan.incomingSequence &&& updateMask) q)

theorem parsePacketEntities_succ (msg : Message) (fuel : Nat) (q : QwConnection) :
    parsePacketEntities msg (fuel + 1) false q
      = fullUpdatePass msg (fuel + 1) q.netchan.incomingSequence q.updating := by
  rw [parsePacketEntities, get_bind, modify_bind, if_neg Bool.false_ne_true, parseEntityUpdates,
    modify_bind, get_bind, packetEntitiesLoop_full]
  rfl

/-- The calls of `NetQW_SetDeltaPoint`. -/
def deltaPoints (q : QwConnection) : List Event :=
  q.trace.filter fun e => e matches .setDeltaPoint _

theorem readsFreely_deltaPoints : ReadsFreely deltaPoints := by
  refine ⟨fun n q => ?_, fun q => rfl⟩
  have hnone : (derefs q.msgReadcount n).filter (fun e => e matches .setDeltaPoint _) = [] := by
    refine List.filter_eq_nil_iff.mpr fun e he => ?_
    obtain ⟨k, -, rfl⟩ := List.mem_map.mp he
    exact Bool.false_ne_true
  rw [deltaPoints, QwConnection.advance, QwConnection.log_trace, List.filter_append, hnone,
    List.append_nil]
  rfl

/-- A flushed update sets no delta point, and cannot be rendered. -/
theorem flushInvalid_spec {msg : Message} {fuel : Nat} {q q' : QwConnection}
    (h : flushInvalid msg fuel q = (some (), q')) :
    deltaPoints q' = deltaPoints q ∧ q'.validsequence = 0#32 := by
  obtain ⟨_, q₁, hflush, hset⟩ := bind_eq_some h
  obtain ⟨-, rfl⟩ := Prod.mk.inj hset
  have hsame : deltaPoints q₁ = deltaPoints q :=
    (readsFreely_deltaPoints.leaves_flushEntityPacket msg fuel).eq hflush
  exact ⟨hsame, rfl⟩

theorem setDeltaPoint_not_mem {q q' : QwConnection} (hext : q.trace <+: q'.trace)
    (h : deltaPoints q' = deltaPoints q) (sequence : BitVec 32) :
    .setDeltaPoint sequence ∉ newEvents q q' := by
  obtain ⟨es, htrace⟩ := hext
  have hnone : es.filter (fun e => e matches .setDeltaPoint _) = [] := by
    rw [deltaPoints, deltaPoints, ← htrace, List.filter_append] at h
    exact List.append_right_eq_self.mp h
  rw [newEvents, ← htrace, List.drop_left]
  exact fun hmem => absurd rfl (List.filter_eq_nil_iff.mp hnone _ hmem)

section

variable {msg : Message} {q : QwConnection}

/-- The one pass over an empty update. -/
theorem fullUpdatePass_empty (fuel : Nat) (d : BitVec 32) (hbad : q.msgBadread = false)
    (hfit : msg.Fits q.msgReadcount 2) (hzero : msg.wordAt q.msgReadcount = 0#32) :
    fullUpdatePass msg fuel d q
      = (some (), (q.advance 2).log [.setDeltaPoint (if d ≠ 0#32 then d else -1#32)]) := by
  have hgood : ¬(q.advance 2).msgBadread = true := by
    rw [show (q.advance 2).msgBadread = false from hbad]
    exact Bool.false_ne_true
  rw [fullUpdatePass, bind_some (msgReadWord_fits hfit), get_bind, if_neg hgood, if_pos hzero]
  rfl

/-- And over one that is not empty. -/
theorem fullUpdatePass_flush (fuel : Nat) (d : BitVec 32) (hbad : q.msgBadread = false)
    (hfit : msg.Fits q.msgReadcount 2) (hne : msg.wordAt q.msgReadcount ≠ 0#32) :
    fullUpdatePass msg fuel d q = flushInvalid msg fuel (q.advance 2) := by
  have hgood : ¬(q.advance 2).msgBadread = true := by
    rw [show (q.advance 2).msgBadread = false from hbad]
    exact Bool.false_ne_true
  rw [fullUpdatePass, bind_some (msgReadWord_fits hfit), get_bind, if_neg hgood, if_neg hne]

/-- An update that is not empty never becomes the delta base. -/
theorem not_becomesBase {e : EntityUpdate true} {u : FullUpdate}
    {es : List (EntityUpdate true)} (hu : u.updates = e :: es) (hq : InFrontOf msg u.encode q) :
    ¬BecomesBase msg u q := by
  rintro ⟨fuel, q', hrun, -, -, -, hmem⟩
  rw [FullUpdate.encode, hu, EntityUpdate.encodeList_cons] at hq
  obtain ⟨hfit, -, hne⟩ := hq.wordAt_update
  have hadv := steps_parsePacketEntities msg fuel q
  rw [hrun] at hadv
  obtain ⟨es', htrace, -⟩ := hadv.events
  rcases fuel with _ | fuel
  · exact nomatch (Prod.mk.inj hrun).1
  · -- The first comparison is true of every number
    have hpass := fullUpdatePass_flush (q := q.updating) (fuel + 1) q.netchan.incomingSequence
      hq.badread hfit hne
    rw [parsePacketEntities_succ, hpass] at hrun
    have hflush := (flushInvalid_spec hrun).1
    rw [readsFreely_deltaPoints.advance] at hflush
    exact setDeltaPoint_not_mem ⟨es', htrace.symm⟩ hflush _ hmem

/-- The one delta point that an empty update sets. -/
theorem setDeltaPoint_mem_iff (q : QwConnection) (sequence d : BitVec 32) :
    .setDeltaPoint sequence ∈ newEvents q ((q.updating.advance 2).log [.setDeltaPoint d]) ↔
      sequence = d := by
  have htrace : ((q.updating.advance 2).log [.setDeltaPoint d]).trace
      = q.trace ++ (derefs q.msgReadcount 2 ++ [.setDeltaPoint d]) := List.append_assoc ..
  have hderefs : .setDeltaPoint sequence ∉ derefs q.msgReadcount 2 := by
    intro h
    obtain ⟨k, -, hk⟩ := List.mem_map.mp h
    exact nomatch hk
  rw [newEvents, htrace, List.drop_left, List.mem_append, or_iff_right hderefs, List.mem_singleton,
    Event.setDeltaPoint.injEq]

/-- A full update is parsed completely and becomes the delta base iff it is empty and the
    packet's sequence number is not 0. -/
theorem parsePacketEntities_full_iff (u : FullUpdate) (hq : InFrontOf msg u.encode q) :
    BecomesBase msg u q ↔ u.updates = [] ∧ q.netchan.incomingSequence ≠ 0#32 := by
  have hcur := msg.cursize_lt
  rcases hu : u.updates with _ | ⟨e, es⟩
  · have hbytes : u.encode = [0, 0] := by
      rw [FullUpdate.encode, hu]
      rfl
    have hempty : InFrontOf msg [0, 0] q.updating := by
      rw [hbytes] at hq
      exact ⟨hq.badread, hq.has, hq.fits⟩
    obtain ⟨hfit, hword⟩ := hempty.wordAt
    have hfits : q.updating.msgReadcount.toNat + 2 ≤ msg.cursize := hempty.fits
    have hpass := fun fuel => fullUpdatePass_empty (q := q.updating) fuel
      q.netchan.incomingSequence hempty.badread hfit (hword.trans rfl)
    constructor
    · rintro ⟨fuel, q', hrun, -, -, -, hmem⟩
      refine ⟨rfl, fun hzero => ?_⟩
      rcases fuel with _ | fuel
      · exact nomatch (Prod.mk.inj hrun).1
      · rw [parsePacketEntities_succ, hpass, hzero] at hrun
        obtain rfl := (Prod.mk.inj hrun).2
        rw [hzero, if_neg (not_not.mpr rfl), setDeltaPoint_mem_iff] at hmem
        exact nomatch hmem
    · rintro ⟨-, hne⟩
      refine ⟨1, _, (parsePacketEntities_succ msg 0 q).trans (hpass 1), ?_, hq.badread, rfl, ?_⟩
      · rw [hbytes]
        exact toNat_add_ofNat (by omega)
      · rw [if_pos hne, setDeltaPoint_mem_iff]
  · refine iff_of_false (not_becomesBase hu hq) ?_
    exact fun h => nomatch h.1

end

/-- A connection that has received packet 1. -/
def received : QwConnection := { QwConnection.fresh with netchan := ⟨1, 0, 1⟩ }

/-- The empty update. -/
theorem parsePacketEntities_full_empty :
    BecomesBase (.ofBytes [0, 0] (by decide)) ⟨[], nofun, .nil, by decide⟩ received := by
  have hq : InFrontOf (.ofBytes [0, 0] (by decide)) [0, 0] received :=
    ⟨rfl, Message.hasAt_ofBytes (by decide), by decide⟩
  exact (parsePacketEntities_full_iff ⟨[], nofun, .nil, by decide⟩ hq).mpr ⟨rfl, by decide⟩

/-- Entity 1 with a frame number. -/
def frameUpdate : FullUpdate where
  updates := [⟨0x2001#16, 0, [7], by decide, by decide⟩]
  no_remove := by decide
  increasing := List.pairwise_singleton ..
  length_le := by decide

/-- The update of one entity is rejected. -/
theorem parsePacketEntities_full_not_becomesBase :
    frameUpdate.encode = [0x01, 0x20, 7, 0, 0] ∧
      ¬BecomesBase (.ofBytes [0x01, 0x20, 7, 0, 0] (by decide)) frameUpdate received := by
  have hbytes : frameUpdate.encode = [0x01, 0x20, 7, 0, 0] := by decide
  have hq : InFrontOf (.ofBytes [0x01, 0x20, 7, 0, 0] (by decide)) frameUpdate.encode received := by
    rw [hbytes]
    exact ⟨rfl, Message.hasAt_ofBytes (by decide), by decide⟩
  exact ⟨hbytes, not_becomesBase rfl hq⟩

end QwNet
