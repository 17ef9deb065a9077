/-
  QwNet.Channel.PacketLoss

  The packet-loss statistic of `NetQW_Thread_HandleReceivedPacket`.

  The history is a window of 200 packets that ends with the last one of the client.  How
  much of it the loop looks at comes from a chain of unsigned subtractions; none of them
  wraps as long as the server's packet is not ahead of the client's own.
-/
import Mathlib.Data.List.Nodup
import QwNet.Channel.Reliable

namespace QwNet

/-- The unsigned subtraction `a - b` does not wrap below zero. -/
def NoWrap (a b : BitVec 32) : Prop := b ≤ a

/-- The slots of the history that the loop looks at. -/
def NetQW.historySlots (sequenceNumber : BitVec 32) (q : NetQW) : List Nat :=
  (List.range (q.historyLength sequenceNumber).toNat).map fun i =>
    (sequenceNumber - BitVec.ofNat 32 i).toNat % 200

/-- The loop over the history, between `q` and `q'`. -/
structure LossCounted (sequenceNumber : BitVec 32) (q q' : NetQW) : Prop where
  iterations : (q.historyLength sequenceNumber).toNat ≤ 200
  once : (q.historySlots sequenceNumber).Nodup
  /-- `current_outgoing_sequence_number - sequence_number`. -/
  ahead : NoWrap q.currentOutgoingSequenceNumber sequenceNumber
  /-- `j -= current_outgoing_sequence_number - sequence_number + 1`. -/
  window : NoWrap (if 200#32 < q.currentOutgoingSequenceNumber then 200#32
      else q.currentOutgoingSequenceNumber)
    (q.currentOutgoingSequenceNumber - sequenceNumber + 1#32)
  /-- `sequence_number - i`. -/
  indices : ∀ i < (q.historyLength sequenceNumber).toNat, NoWrap sequenceNumber (BitVec.ofNat 32 i)
  percentage : q'.packetloss.toNat ≤ 100

/-- If the packet is not too old, its history is counted as it should be. -/
def CountsLoss (data : List Byte) (q q' : NetQW) : Prop :=
  q.currentOutgoingSequenceNumber < sequenceOf data + 200#32 → LossCounted (sequenceOf data) q q'

/-! ## The window -/

section

variable {n : BitVec 32} {q : NetQW}

theorem toNat_add_200 (hlt : n.toNat < 2 ^ 31) : (n + 200#32).toNat = n.toNat + 200 := by
  rw [BitVec.toNat_add]
  exact Nat.mod_eq_of_lt (by simp; omega)

/-- The distance of the packet from the end of the window. -/
theorem toNat_distance (hpos : n ≠ 0#32) (hle : n ≤ q.currentOutgoingSequenceNumber) :
    (q.currentOutgoingSequenceNumber - n + 1#32).toNat
      = q.currentOutgoingSequenceNumber.toNat - n.toNat + 1 := by
  have hsub := BitVec.toNat_sub_of_le hle
  have hne : n.toNat ≠ 0 := fun h => hpos (BitVec.eq_of_toNat_eq h)
  have hlt := q.currentOutgoingSequenceNumber.isLt
  rw [BitVec.toNat_add, hsub]
  exact Nat.mod_eq_of_lt (by simp; omega)

theorem toNat_window : (if 200#32 < q.currentOutgoingSequenceNumber then 200#32
    else q.currentOutgoingSequenceNumber).toNat = min q.currentOutgoingSequenceNumber.toNat 200 := by
  by_cases h : 200#32 < q.currentOutgoingSequenceNumber
  · rw [if_pos h]
    have hlt : 200 < q.currentOutgoingSequenceNumber.toNat := h
    simp; omega
  · rw [if_neg h]
    have hle : q.currentOutgoingSequenceNumber.toNat ≤ 200 := Nat.not_lt.mp h
    omega

variable (hpos : n ≠ 0#32) (hlt : n.toNat < 2 ^ 31) (hle : n ≤ q.currentOutgoingSequenceNumber)
  (hrecent : q.currentOutgoingSequenceNumber < n + 200#32)
include hpos hlt hle hrecent

theorem noWrap_window : NoWrap (if 200#32 < q.currentOutgoingSequenceNumber then 200#32
      else q.currentOutgoingSequenceNumber) (q.currentOutgoingSequenceNumber - n + 1#32) := by
  have hne : n.toNat ≠ 0 := fun h => hpos (BitVec.eq_of_toNat_eq h)
  have hle' : n.toNat ≤ q.currentOutgoingSequenceNumber.toNat := hle
  have hrecent' : q.currentOutgoingSequenceNumber.toNat < n.toNat + 200 := by
    rw [← toNat_add_200 hlt]
    exact hrecent
  rw [NoWrap, BitVec.le_def, toNat_distance hpos hle, toNat_window]
  omega

/-- What is left of the window reaches from the packet back to its begin. -/
theorem toNat_historyLength : (q.historyLength n).toNat
    + (q.currentOutgoingSequenceNumber.toNat - n.toNat + 1)
      = min q.currentOutgoingSequenceNumber.toNat 200 := by
  have hwindow := noWrap_window hpos hlt hle hrecent
  have hsub : (q.historyLength n).toNat = _ := BitVec.toNat_sub_of_le hwindow
  have hle' := BitVec.le_def.mp hwindow
  rw [toNat_distance hpos hle, toNat_window] at hsub hle'
  omega

theorem historyLength_lt : (q.historyLength n).toNat < 200 ∧ (q.historyLength n).toNat < n.toNat := by
  have hlength := toNat_historyLength hpos hlt hle hrecent
  have hle' : n.toNat ≤ q.currentOutgoingSequenceNumber.toNat := hle
  omega

theorem toNat_sub_index {i : Nat} (hi : i < (q.historyLength n).toNat) :
    NoWrap n (BitVec.ofNat 32 i) ∧ (n - BitVec.ofNat 32 i).toNat = n.toNat - i := by
  have hlength := (historyLength_lt hpos hlt hle hrecent).2
  have hi' : (BitVec.ofNat 32 i).toNat = i := by
    rw [BitVec.toNat_ofNat]
    exact Nat.mod_eq_of_lt (by omega)
  have hwrap : NoWrap n (BitVec.ofNat 32 i) := by
    rw [NoWrap, BitVec.le_def, hi']
    omega
  refine ⟨hwrap, ?_⟩
  rw [BitVec.toNat_sub_of_le hwrap, hi']

/-- The slots are those of fewer than 200 numbers in a row. -/
theorem nodup_historySlots : (q.historySlots n).Nodup := by
  have hlength := historyLength_lt hpos hlt hle hrecent
  refine List.Nodup.map_on ?_ List.nodup_range
  intro i hi j hj heq
  rw [List.mem_range] at hi hj
  rw [(toNat_sub_index hpos hlt hle hrecent hi).2, (toNat_sub_index hpos hlt hle hrecent hj).2] at heq
  omega

end

/-! ## The percentage -/

section

variable {q : NetQW}

theorem toNat_setPacketloss {lost : BitVec 32} (h : lost.toNat ≤ 200) :
    (q.setPacketloss lost).packetloss.toNat ≤ 100 := by
  have hmul : (lost * 100#32).toNat = lost.toNat * 100 := by
    rw [BitVec.toNat_mul]
    exact Nat.mod_eq_of_lt (by simp; omega)
  have hadd : (lost * 100#32 + 199#32).toNat = lost.toNat * 100 + 199 := by
    rw [BitVec.toNat_add, hmul]
    exact Nat.mod_eq_of_lt (by simp; omega)
  show (((lost * 100#32 + 199#32) / 200#32).setWidth 8).toNat ≤ 100
  rw [BitVec.toNat_setWidth, BitVec.toNat_udiv, hadd]
  exact (Nat.mod_le _ _).trans (by simp; omega)

/-- No more packets are lost than the loop looks at. -/
theorem toNat_lostPackets (n : BitVec 32) :
    (q.lostPackets n).toNat ≤ (q.historyLength n).toNat := by
  refine (BitVec.toNat_ofNat _ _).le.trans ((Nat.mod_le _ _).trans ?_)
  exact List.countP_le_length.trans (List.length_range).le

/-- The statistic depends on the client's number, the history and the old value. -/
theorem packetloss_notePacketloss {q q' : NetQW} (n : BitVec 32)
    (hcurrent : q'.currentOutgoingSequenceNumber = q.currentOutgoingSequenceNumber)
    (hreplies : q'.replyreceived = q.replyreceived) (hloss : q'.packetloss = q.packetloss) :
    (q'.notePacketloss n).packetloss = (q.notePacketloss n).packetloss := by
  unfold NetQW.notePacketloss
  rw [hcurrent]
  split
  · simp only [NetQW.setPacketloss, NetQW.lostPackets, NetQW.historyLength, NetQW.noteReply, hcurrent,
      hreplies]
    rfl
  · exact hloss

theorem packetloss_handleReceivedPacket (data : List Byte) (q : NetQW) :
    (q.handleReceivedPacket data).packetloss = (q.notePacketloss (sequenceOf data)).packetloss := by
  have hsettle : ∀ (q : NetQW) n bit, (q.settleReliables n bit).packetloss = q.packetloss :=
    fun q n bit => (keeps_settleReliables (P := fun _ => True) q (fun _ _ => rfl) (fun _ => trivial)
      trivial (fun _ => rfl) (fun _ _ => rfl) n bit).view
  exact (hsettle _ _ _).trans (packetloss_notePacketloss _ rfl rfl rfl)

end

/-- The loop does what it should exactly if the packet is not ahead of the client. -/
theorem countsLoss_iff {data : List Byte} {q q' : NetQW} (hpos : sequenceOf data ≠ 0#32)
    (hloss : q'.packetloss = (q.notePacketloss (sequenceOf data)).packetloss) :
    CountsLoss data q q' ↔ sequenceOf data ≤ q.currentOutgoingSequenceNumber := by
  have hlt : (sequenceOf data).toNat < 2 ^ 31 := number31_lt _ 0
  constructor
  · intro hcounts
    by_cases hrecent : q.currentOutgoingSequenceNumber < sequenceOf data + 200#32
    · exact (hcounts hrecent).ahead
    · have hold := BitVec.not_lt.mp hrecent
      rw [BitVec.le_def, toNat_add_200 hlt] at hold
      rw [BitVec.le_def]
      omega
  · intro hle hrecent
    have hlength := (historyLength_lt hpos hlt hle hrecent).1
    refine ⟨hlength.le, nodup_historySlots hpos hlt hle hrecent, hle,
      noWrap_window hpos hlt hle hrecent,
      fun i hi => (toNat_sub_index hpos hlt hle hrecent hi).1, ?_⟩
    rw [hloss, NetQW.notePacketloss, if_pos hrecent]
    apply toNat_setPacketloss
    exact (toNat_lostPackets _).trans hlength.le

/-! ## What a step can do -/

/-- Operations that leave the statistic alone. -/
abbrev LossSilent (q q' : NetQW) : Prop := Keeps NetQW.packetloss (fun _ => True) q q'

namespace Client

variable {angle16 : BitVec 32 → BitVec 16} {a : Action} {c c' : Client} {data : List Byte}

/-- A packet that is accepted is handled now, or the statistic stays. -/
theorem packetloss_acceptPacket (now : BitVec 64) (data : List Byte) (q : NetQW) :
    (q.acceptPacket now data).packetloss = if q.delayUntil now = 0#64 then
      (q.notePacketloss (sequenceOf data)).packetloss else q.packetloss := by
  unfold NetQW.acceptPacket
  split
  · have hqueue : ∀ q : NetQW, (q.queueForClient data).packetloss = q.packetloss := fun _ => rfl
    rw [hqueue, NetQW.handleNow, packetloss_handleReceivedPacket]
    apply packetloss_notePacketloss <;> rfl
  · rfl

/-- The step that handles a packet computes the statistic anew. -/
theorem packetloss_of_handling (h : step angle16 a c = some c') (hdata : c.handling a = some data) :
    c'.netqw.packetloss = (c.netqw.notePacketloss (sequenceOf data)).packetloss := by
  cases a
  case receive env source datagram =>
    obtain ⟨-, rfl⟩ := outside_total (f := NetQW.receive env source datagram) h
    rw [handling] at hdata
    split at hdata
    · rename_i hdelay
      show (c.netqw.receive env source datagram).packetloss = _
      rw [(receive_of_accepts hdata).2]
      exact (packetloss_acceptPacket env.now data c.netqw).trans (if_pos hdelay)
    · simp at hdata
  case handleDelayed curtime =>
    obtain ⟨-, q', hq', rfl⟩ := outside_spec h
    obtain ⟨n, rest, hqueue, rfl⟩ := handleDelayed_spec hq'
    rw [handling, hqueue] at hdata
    obtain rfl := Option.some.inj hdata
    have hrelease : ∀ q : NetQW, ((q.setInternalQueue rest).release n).packetloss = q.packetloss :=
      fun _ => rfl
    rw [hrelease, packetloss_handleReceivedPacket]
  all_goals exact absurd hdata (Option.some_ne_none data).symm

/-- A datagram that is not accepted leaves the statistic alone. -/
theorem lossSilent_receive {q : NetQW} {env : NetQW.SendEnv} {source : NetAddr}
    {datagram : List Byte} (h : q.accepts? env source datagram = none) :
    LossSilent q (q.receive env source datagram) := by
  have henter : ∀ q : NetQW, LossSilent q (q.enterConnected env.now) := fun q =>
    keeps_enterConnected q (fun _ _ _ _ => rfl) env.now
  have happend : ∀ q : NetQW, LossSilent q (q.appendReliableBuffer NetQW.newCommand) := fun q =>
    ⟨rfl, [.append NetQW.newCommand], rfl, fun _ _ => trivial⟩
  rcases receive_of_refused h with heq | ⟨r, buf, heq⟩ | heq | heq
  · rw [heq]
    exact .refl q
  · rw [heq]
    exact keeps_receiveChallenge q (fun _ _ _ _ _ _ => rfl) r buf
  · rw [heq]
    exact henter q
  · rw [heq]
    exact (happend q).trans (henter _)

/-- No other step touches the statistic. -/
theorem lossSilent_step (h : step angle16 a c = some c') (hdata : c.handling a = none) :
    c'.netqw.packetloss = c.netqw.packetloss := by
  have hframes : ReadsNoFrames NetQW.packetloss fun _ => True :=
    ⟨fun _ _ => rfl, fun _ _ _ _ _ _ _ _ _ _ _ _ _ _ => rfl, fun _ _ => trivial⟩
  have hpackets : ReadsNoPackets NetQW.packetloss fun _ => True :=
    ⟨fun _ _ => rfl, fun _ _ _ _ _ => rfl, fun _ _ => trivial⟩
  have hsending : ReadsNoSending NetQW.packetloss fun _ => True :=
    ⟨fun _ _ => rfl, fun _ _ _ _ => rfl, fun _ => trivial⟩
  cases a
  case append buffer =>
    obtain rfl := Option.some.inj h
    rfl
  case freePacket =>
    obtain ⟨q', hq', rfl⟩ := Option.map_eq_some_iff.mp h
    exact (hpackets.freePacket hq').view
  case clampDelays curtime =>
    obtain ⟨-, rfl⟩ := outside_total (f := NetQW.clampDelays curtime) h
    exact (hpackets.clampDelays curtime).view
  case handleDelayed curtime =>
    obtain ⟨-, q', hq', -⟩ := outside_spec h
    obtain ⟨n, rest, hqueue, -⟩ := handles_handleDelayed hq'
    rw [handling, hqueue] at hdata
    exact absurd hdata (Option.some_ne_none _)
  case clampSends | sendDelayed | beginSend => exact (hsending.step rfl h).1.view
  case receive env source datagram =>
    obtain ⟨-, rfl⟩ := outside_total (f := NetQW.receive env source datagram) h
    show (c.netqw.receive env source datagram).packetloss = c.netqw.packetloss
    -- a packet that is accepted now is handled later
    cases haccepts : c.netqw.accepts? env source datagram with
    | none => exact (lossSilent_receive haccepts).view
    | some data =>
      have hdelay := waits_of_handling hdata haccepts
      rw [(receive_of_accepts haccepts).2]
      exact (packetloss_acceptPacket env.now data c.netqw).trans (if_neg hdelay)
  case addReliables =>
    obtain ⟨buf, -, rfl⟩ := addReliables_spec h
    exact (keeps_rememberReliables (P := fun _ => True) _ (fun _ _ _ _ => rfl) _).view
  case submitPacket env =>
    exact (hsending.submit (fun _ _ => trivial) (fun _ _ => rfl) h).view
  case finishPacket =>
    obtain ⟨-, rfl⟩ := finishPacket_spec h
    rfl
  all_goals exact (hframes.step rfl h).1.view

/-- A packet that is handled does not have the number 0. -/
theorem sequenceOf_handling (h : (system angle16).Reachable c) (hdata : c.handling a = some data) :
    sequenceOf data ≠ 0#32 := by
  have haccepts : ∀ (q : NetQW) env source datagram, ∀ data ∈ q.accepts? env source datagram,
      sequenceOf data ≠ 0#32 := by
    intro q env source datagram data hdata hzero
    have hfresh := (receive_of_accepts hdata).1
    rw [hzero] at hfresh
    exact absurd hfresh BitVec.not_lt_zero
  have hinit : ∀ c, Client.Init c → c.netqw.lagQueue.Items fun data => sequenceOf data ≠ 0#32 := by
    rintro c ⟨garbage, qport, userinfo, addr, rfl⟩
    exact ⟨fun _ hx => (nomatch hx), fun _ hx => (nomatch hx)⟩
  have hitems := h.invariant_of (fun _ => Client.inboxSound) hinit fun a c c' hs hitems _ hstep =>
    items_step hitems hs (fun env source datagram _ => haccepts _ env source datagram) hstep
  exact handling_items hitems (fun env source datagram _ => haccepts _ env source datagram) hdata

end Client

/-! ## Every run -/

/-- A packet that is handled is not ahead of the client's own. -/
def NotAhead (a : Action) (c : Client) : Prop :=
  ∀ data ∈ c.handling a, sequenceOf data ≤ c.netqw.currentOutgoingSequenceNumber

instance (a : Action) (c : Client) : Decidable (NotAhead a c) :=
  inferInstanceAs (Decidable (∀ data ∈ c.handling a, _))

/-- The statistic is counted as it should be exactly for the packets that are not ahead of the
    client.  In every run in which none is, it is a percentage all the time. -/
theorem packetloss_percentage_iff (angle16 : BitVec 32 → BitVec 16) :
    (∀ c, (Client.system angle16).Reaches NotAhead c → c.netqw.packetloss.toNat ≤ 100) ∧
    ∀ c, (Client.system angle16).Reachable c → ∀ a c' data, Client.step angle16 a c = some c' →
      c.handling a = some data → (CountsLoss data c.netqw c'.netqw ↔
        sequenceOf data ≤ c.netqw.currentOutgoingSequenceNumber) := by
  have hiff : ∀ c, (Client.system angle16).Reachable c → ∀ a c' data,
      Client.step angle16 a c = some c' → c.handling a = some data →
        (CountsLoss data c.netqw c'.netqw ↔
          sequenceOf data ≤ c.netqw.currentOutgoingSequenceNumber) :=
    fun c hreachable a c' data hstep hdata => countsLoss_iff
      (Client.sequenceOf_handling hreachable hdata) (Client.packetloss_of_handling hstep hdata)
  refine ⟨fun c hreaches => ?_, hiff⟩
  have hinit : ∀ c, Client.Init c → c.netqw.packetloss.toNat ≤ 100 := by
    rintro c ⟨garbage, qport, userinfo, addr, rfl⟩
    exact Nat.zero_le 100
  refine hreaches.invariant_of (fun _ => id) hinit fun a c c' hreachable hpercent hok hstep => ?_
  -- only a packet that is handled changes the statistic
  cases hdata : c.handling a with
  | none =>
    rw [Client.lossSilent_step hstep hdata]
    exact hpercent
  | some data =>
    by_cases hrecent : c.netqw.currentOutgoingSequenceNumber < sequenceOf data + 200#32
    · have hcounts := (hiff c hreachable a c' data hstep hdata).mpr (hok data hdata)
      exact (hcounts hrecent).percentage
    · -- a packet of long ago is not counted at all
      rw [Client.packetloss_of_handling hstep hdata, NetQW.notePacketloss, if_neg hrecent]
      exact hpercent

/-- Behind four packets of the client the server's first packet is handled, and then its third,
    which looks at two slots. -/
theorem packetloss_percentage_iff_answer : ∃ c c', (Client.system fun _ => 0).runOk NotAhead
    (Client.handshake ++ Client.sendRun 56000#64 4 ++ [Client.arrives 58000#64 (serverPacket 1 0)])
      Client.fresh = some c ∧
    Client.step (fun _ => 0) (Client.arrives 60000#64 (serverPacket 3 0)) c = some c' ∧
    (c.netqw.historyLength 3#32).toNat = 2 ∧ c.netqw.packetloss.toNat ≤ 100 ∧
    CountsLoss (serverPacket 3 0) c.netqw c'.netqw := by
  have heq : ((Client.system fun _ => 0).runOk NotAhead
      (Client.handshake ++ Client.sendRun 56000#64 4 ++
        [Client.arrives 58000#64 (serverPacket 1 0)]) Client.fresh >>= fun c =>
        (Client.step (fun _ => 0) (Client.arrives 60000#64 (serverPacket 3 0)) c).map fun _ =>
          (c.handling (Client.arrives 60000#64 (serverPacket 3 0)),
            c.netqw.currentOutgoingSequenceNumber, (c.netqw.historyLength 3#32).toNat))
        = some (some (serverPacket 3 0), 5#32, 2) := by
    decide +kernel
  obtain ⟨c, hrun, hnext⟩ := Option.bind_eq_some_iff.mp heq
  obtain ⟨c', hstep, hread⟩ := Option.map_eq_some_iff.mp hnext
  obtain ⟨hhandling, hread⟩ := Prod.mk.inj hread
  obtain ⟨hcurrent, hlength⟩ := Prod.mk.inj hread
  have hreaches : (Client.system fun _ => 0).Reaches NotAhead c :=
    Transitions.Reaches.runOk (.init ⟨_, _, _, _, rfl⟩) hrun
  obtain ⟨hpercent, hcounts⟩ := packetloss_percentage_iff fun _ => 0
  refine ⟨c, c', hrun, hstep, hlength, hpercent c hreaches, ?_⟩
  apply (hcounts c hreaches.reachable _ c' _ hstep hhandling).mpr
  rw [hcurrent]
  decide

/-- The packet 5000 of the server. -/
def aheadPacket : List Byte := [0x88, 0x13, 0, 0, 0, 0, 0, 0]

/-- After the client's first packet the server sends its packet 5000: the loop looks at 4999
    slots, and the packet loss comes to 183 percent. -/
theorem packetloss_not_percentage_ahead : ∃ c c', (Client.system fun _ => 0).Reachable c ∧
    c.netqw.state = .connected ∧
    Client.step (fun _ => 0) (Client.arrives 20000#64 aheadPacket) c = some c' ∧
    c.handling (Client.arrives 20000#64 aheadPacket) = some aheadPacket ∧
    (c.netqw.historyLength 5000#32).toNat = 4999 ∧ c'.netqw.packetloss = 183#8 ∧
    ¬CountsLoss aheadPacket c.netqw c'.netqw := by
  have heq : ((Client.system fun _ => 0).run (Client.handshake ++ Client.sendRun 14000#64 1)
      Client.fresh >>= fun c =>
        (Client.step (fun _ => 0) (Client.arrives 20000#64 aheadPacket) c).map fun c' =>
          (c.netqw.state, c.handling (Client.arrives 20000#64 aheadPacket),
            c.netqw.currentOutgoingSequenceNumber, (c.netqw.historyLength 5000#32).toNat,
            c'.netqw.packetloss))
        = some (.connected, some aheadPacket, 2#32, 4999, 183#8) := by
    decide +kernel
  -- the run ends in `c`, and the last step in `c'`
  obtain ⟨c, hrun, hnext⟩ := Option.bind_eq_some_iff.mp heq
  obtain ⟨c', hstep, hread⟩ := Option.map_eq_some_iff.mp hnext
  simp only [Prod.mk.injEq] at hread
  obtain ⟨hstate, hhandling, hcurrent, hlength, hloss⟩ := hread
  refine ⟨c, c', Transitions.Reachable.run (.init ⟨_, _, _, _, rfl⟩) hrun, hstate, hstep, hhandling,
    hlength, hloss, fun hcounts => ?_⟩
  have hrecent : c.netqw.currentOutgoingSequenceNumber < sequenceOf aheadPacket + 200#32 := by
    rw [hcurrent]
    decide
  have hpercent := (hcounts hrecent).percentage
  rw [hloss] at hpercent
  exact absurd hpercent (by decide)

end QwNet
