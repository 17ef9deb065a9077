/-
  QwNet.Channel.Connectionless

  Connectionless datagrams in `state_connected`.

  A datagram that begins with the sequence number -1 is to be handled without a
  netchan.  `NetQW_Thread_DoReceive` masks the top bit of that number away: the rest
  is the highest number there is, so the datagram is fresh, and what follows its first
  four bytes is taken for an acknowledge number.
-/
import QwNet.Channel.Reliable

namespace QwNet

/-- The sequence number is -1. -/
def IsConnectionless (datagram : List Byte) : Prop := datagram.take 4 = List.replicate 4 255#8

instance (datagram : List Byte) : Decidable (IsConnectionless datagram) :=
  inferInstanceAs (Decidable (_ = _))

/-- The fields of the channel stay as they were. -/
structure Untouched (q q' : NetQW) : Prop where
  last : q'.lastIncomingSequenceNumber = q.lastIncomingSequenceNumber
  outgoingXor : q'.outgoingReliableXor = q.outgoingReliableXor
  incomingXor : q'.incomingReliableXor = q.incomingReliableXor
  sent : q'.reliableBuffersSent = q.reliableBuffersSent
  queue : q'.reliableQueue = q.reliableQueue
  replyreceived : q'.replyreceived = q.replyreceived
  packetloss : q'.packetloss = q.packetloss

/-- What follows the sequence number -1 passes for an acknowledge number. -/
def PassesInBand (datagram : List Byte) (q : NetQW) : Prop :=
  8 ≤ datagram.length ∧ q.lastIncomingSequenceNumber < 0x7fffffff#32 ∧
    acknowledgeOf datagram < q.currentOutgoingSequenceNumber

instance (datagram : List Byte) (q : NetQW) : Decidable (PassesInBand datagram q) :=
  inferInstanceAs (Decidable (_ ∧ _))

section

variable {q : NetQW} {env : NetQW.SendEnv} {source : NetAddr} {datagram : List Byte}

theorem getD_of_isConnectionless (h : IsConnectionless datagram) {i : Nat} (hi : i < 4) :
    datagram.getD i 0 = 255#8 := by
  have htake : (datagram.take 4).getD i 0 = 255#8 := by
    rw [h, List.getD_eq_getElem _ _ (by rwa [List.length_replicate]), List.getElem_replicate]
  rwa [List.getD_eq_getElem?_getD, List.getElem?_take_of_lt hi, ← List.getD_eq_getElem?_getD] at htake

/-- The highest number there is. -/
theorem sequenceOf_connectionless (h : IsConnectionless datagram) :
    sequenceOf datagram = 0x7fffffff#32 := by
  have hget : ∀ i < 4, datagram.getD i 0 = 255#8 := fun i => getD_of_isConnectionless h
  unfold sequenceOf number31
  dsimp only
  rw [hget _ (by decide), hget _ (by decide), hget _ (by decide), hget _ (by decide)]
  rfl

/-- Without compression the loop looks at the datagram itself. -/
theorem receiveBuf_plain (hplain : q.huffcontext = none) : q.receiveBuf env.stack datagram
    = (datagram.length, fun i => if i < datagram.length then datagram.getD i 0 else env.stack i) := by
  unfold NetQW.receiveBuf
  rw [hplain]
  cases q.state <;> rfl

/-- So what is accepted is a datagram that came in. -/
theorem accepts_plain (hplain : q.huffcontext = none) {data : List Byte} :
    q.accepts? env source datagram = some data ↔ data = datagram ∧
      (0 < datagram.length ∧ source = q.addr) ∧ q.state ≠ .sendchallenge ∧
      q.state ≠ .sendconnection ∧ (8 ≤ datagram.length ∧
        q.lastIncomingSequenceNumber < sequenceOf datagram ∧
        acknowledgeOf datagram < q.currentOutgoingSequenceNumber) ∧ env.alloc = true := by
  -- without compression the buffer read is the datagram itself
  have hdata : ((List.range datagram.length).map fun i =>
      if i < datagram.length then datagram.getD i 0 else env.stack i) = datagram := by
    apply List.ext_getElem
    · rw [List.length_map, List.length_range]
    · intro i hi hi'
      rw [List.getElem_map, List.getElem_range, if_pos hi', List.getD_eq_getElem]
  -- both numbers lie in the first eight bytes
  have hnumber : 8 ≤ datagram.length → ∀ k ≤ 4, number31 (fun i =>
      if i < datagram.length then datagram.getD i 0 else env.stack i) k
        = number31 (fun i => datagram.getD i 0) k := by
    intro hlength k hk
    unfold number31
    dsimp only
    rw [if_pos (by omega), if_pos (by omega), if_pos (by omega), if_pos (by omega)]
  have haccept : q.Acceptable datagram.length (fun i =>
      if i < datagram.length then datagram.getD i 0 else env.stack i) ↔
        8 ≤ datagram.length ∧ q.lastIncomingSequenceNumber < sequenceOf datagram ∧
          acknowledgeOf datagram < q.currentOutgoingSequenceNumber := by
    refine and_congr_right fun hlength => ?_
    rw [hnumber hlength 0 (by decide), hnumber hlength 4 (by decide)]
    rfl
  unfold NetQW.accepts?
  rw [receiveBuf_plain hplain]
  dsimp only
  rw [hdata, ← haccept]
  constructor
  · intro h
    split at h
    · exact ⟨(Option.some.inj h).symm, ‹_›⟩
    · exact nomatch h
  · rintro ⟨rfl, hconds⟩
    exact if_pos hconds

/-- In `state_connected` only an accepted datagram does anything. -/
theorem receive_of_not_accepts (hstate : q.state = .connected)
    (h : q.accepts? env source datagram = none) : q.receive env source datagram = q := by
  unfold NetQW.accepts? at h
  dsimp only at h
  unfold NetQW.receive NetQW.receivePacket
  rw [hstate] at h ⊢
  dsimp only
  split
  · rename_i hsource
    refine if_neg fun haccept => ?_
    rw [if_pos ⟨hsource, nofun, nofun, haccept⟩] at h
    exact nomatch h
  · rfl

/-- A connectionless datagram of the server is accepted exactly if it passes. -/
theorem accepts_connectionless (hstate : q.state = .connected) (hplain : q.huffcontext = none)
    (h : IsConnectionless datagram) : q.accepts? env q.addr datagram
      = if PassesInBand datagram q ∧ env.alloc = true then some datagram else none := by
  have hsequence := sequenceOf_connectionless h
  have hiff : ∀ data, q.accepts? env q.addr datagram = some data ↔
      data = datagram ∧ PassesInBand datagram q ∧ env.alloc = true := by
    intro data
    rw [accepts_plain hplain, hsequence, hstate]
    refine and_congr_right fun _ => ⟨fun hconds => hconds.2.2.2, fun hconds => ?_⟩
    exact ⟨⟨by have := hconds.1.1; omega, rfl⟩, nofun, nofun, hconds⟩
  split
  · rename_i hpasses
    exact (hiff datagram).mpr ⟨rfl, hpasses⟩
  · rename_i hnot
    exact Option.eq_none_iff_forall_ne_some.mpr fun data hdata => hnot ((hiff data).mp hdata).2

/-- A packet handled at once leaves its number behind. -/
theorem last_acceptPacket {now : BitVec 64} {data : List Byte} (hdelay : q.delayUntil now = 0#64) :
    (q.acceptPacket now data).lastIncomingSequenceNumber = sequenceOf data := by
  have hview := (inboxSilent_handleReceivedPacket (q.storePacket ⟨0, 1, data⟩) data).view
  unfold NetQW.acceptPacket
  rw [if_pos hdelay]
  exact congrArg InboxView.last hview

/-- After that no packet at all is fresh. -/
theorem accepts_of_last_max (h : q.lastIncomingSequenceNumber = 0x7fffffff#32)
    (hplain : q.huffcontext = none) : q.accepts? env source datagram = none := by
  refine Option.eq_none_iff_forall_ne_some.mpr fun data hdata => ?_
  obtain ⟨-, -, -, -, ⟨-, hfresh, -⟩, -⟩ := (accepts_plain hplain).mp hdata
  rw [h, BitVec.lt_def] at hfresh
  have hlow : (sequenceOf datagram).toNat < 2 ^ 31 := number31_lt _ _
  rw [BitVec.toNat_ofNat] at hfresh
  omega

/-- What the datagram does not touch, now and later. -/
theorem untouched_receive_iff (hstate : q.state = .connected) (hplain : q.huffcontext = none)
    (h : IsConnectionless datagram) :
    (Untouched q (q.receive env q.addr datagram) ↔
      ¬(PassesInBand datagram q ∧ env.alloc = true) ∨ q.delayUntil env.now ≠ 0#64) ∧
    (Untouched q (q.receive env q.addr datagram) ∧
      (q.receive env q.addr datagram).internalQueue = q.internalQueue ↔
        ¬(PassesInBand datagram q ∧ env.alloc = true)) := by
  have haccepts : q.accepts? env q.addr datagram
      = if PassesInBand datagram q ∧ env.alloc = true then some datagram else none :=
    accepts_connectionless hstate hplain h
  by_cases hpasses : PassesInBand datagram q ∧ env.alloc = true
  · rw [if_pos hpasses] at haccepts
    have hreceive : q.receive env q.addr datagram = q.acceptPacket env.now datagram :=
      (receive_of_accepts haccepts).2
    rw [hreceive]
    -- handled at once it moves the incoming number to its end; held back it only waits
    by_cases hdelay : q.delayUntil env.now = 0#64
    · have htouched : ¬Untouched q (q.acceptPacket env.now datagram) := by
        intro huntouched
        have hlast := huntouched.last.symm.trans (last_acceptPacket hdelay)
        have hlow := hpasses.1.2.1
        rw [hlast, sequenceOf_connectionless h] at hlow
        exact absurd hlow (BitVec.lt_irrefl _)
      exact ⟨iff_of_false htouched fun hor => hor.elim (· hpasses) (· hdelay),
        iff_of_false (fun hboth => htouched hboth.1) (not_not.mpr hpasses)⟩
    · have hlater : q.acceptPacket env.now datagram
          = (q.handleLater (q.delayUntil env.now) datagram).queueForClient datagram :=
        congrArg (NetQW.queueForClient datagram) (if_neg hdelay)
      rw [hlater]
      refine ⟨iff_of_true ⟨rfl, rfl, rfl, rfl, rfl, rfl, rfl⟩ (.inr hdelay),
        iff_of_false (fun hboth => ?_) (not_not.mpr hpasses)⟩
      have hlength := congrArg List.length hboth.2
      exact absurd hlength (by
        show (q.internalQueue ++ [q.netpacketCount]).length ≠ _
        rw [List.length_append, List.length_singleton]
        omega)
  · rw [if_neg hpasses] at haccepts
    rw [receive_of_not_accepts hstate haccepts]
    have huntouched : Untouched q q := ⟨rfl, rfl, rfl, rfl, rfl, rfl, rfl⟩
    exact ⟨iff_of_true huntouched (.inl hpasses), iff_of_true ⟨huntouched, rfl⟩ hpasses⟩

end

/-! ## Every run -/

/-- The client does not use compression, and no connectionless datagram passes. -/
def OffBand (a : Action) (c : Client) : Prop :=
  c.netqw.huffcontext = none ∧ ∀ arrival ∈ a.arrival?, IsConnectionless arrival.2.2 →
    c.netqw.state ≠ .sendchallenge → c.netqw.state ≠ .sendconnection →
      ¬PassesInBand arrival.2.2 c.netqw

instance (a : Action) (c : Client) : Decidable (OffBand a c) :=
  inferInstanceAs (Decidable (_ ∧ ∀ arrival ∈ a.arrival?, _))

/-- The packets that were handled or wait have a sequence number. -/
def HaveNumbers (q : NetQW) : Prop := q.lagQueue.Items fun data => ¬IsConnectionless data

theorem HaveNumbers.step {angle16 : BitVec 32 → BitVec 16} {a : Action} {c c' : Client}
    (h : HaveNumbers c.netqw) (hs : InboxSound c.netqw) (hok : OffBand a c)
    (hstep : Client.step angle16 a c = some c') : HaveNumbers c'.netqw := by
  refine Client.items_step h hs ?_ hstep
  rintro env source data rfl data' haccepts
  obtain ⟨hplain, hoff⟩ := hok
  obtain ⟨rfl, -, hchallenge, hconnection, ⟨hlength, hfresh, hacknowledge⟩, -⟩ :=
    (accepts_plain hplain).mp haccepts
  intro hless
  rw [sequenceOf_connectionless hless] at hfresh
  exact hoff _ rfl hless hchallenge hconnection ⟨hlength, hfresh, hacknowledge⟩

/-- In `state_connected` and without compression a connectionless datagram of the server leaves
    the channel alone, now and later, exactly if it does not pass.  In every run in which none
    passes, none is ever handled as a packet. -/
theorem connectionless_untouched_iff (angle16 : BitVec 32 → BitVec 16) :
    (∀ c, (Client.system angle16).Reaches OffBand c →
      ∀ data ∈ handled c.netqw.trace, ¬IsConnectionless data) ∧
    ∀ c, (Client.system angle16).Reachable c → c.netqw.state = .connected →
      c.netqw.huffcontext = none → ∀ env datagram c', IsConnectionless datagram →
        Client.step angle16 (.receive env c.netqw.addr datagram) c = some c' →
          (Untouched c.netqw c'.netqw ↔ ¬(PassesInBand datagram c.netqw ∧ env.alloc = true) ∨
            c.netqw.delayUntil env.now ≠ 0#64) ∧
          (Untouched c.netqw c'.netqw ∧ c'.netqw.internalQueue = c.netqw.internalQueue ↔
            ¬(PassesInBand datagram c.netqw ∧ env.alloc = true)) := by
  constructor
  · intro c hreaches
    -- a packet handled with such a header would have to be newer than every number
    have hinit : ∀ c, Client.Init c → HaveNumbers c.netqw := by
      rintro c ⟨garbage, qport, userinfo, addr, rfl⟩
      exact ⟨fun _ hx => (nomatch hx), fun _ hx => (nomatch hx)⟩
    have hnumbers : HaveNumbers c.netqw := hreaches.invariant_of (fun _ => Client.inboxSound) hinit
      fun a c c' hs h hok hstep => h.step hs hok hstep
    exact hnumbers.handled
  · intro c _ hstate hplain env datagram c' hless hstep
    obtain ⟨-, rfl⟩ := Client.outside_total (f := NetQW.receive env c.netqw.addr datagram) hstep
    exact untouched_receive_iff hstate hplain hless

/-- A connectionless datagram. -/
def connectionlessDatagram (body : List Byte) : List Byte := List.replicate 4 255#8 ++ body

/-- A client that has just connected prints nothing, and goes on. -/
theorem connectionless_untouched_print : ∃ c c', (Client.system fun _ => 0).runOk OffBand
    Client.handshake Client.fresh = some c ∧
    Client.step (fun _ => 0) (.receive ⟨20000#64, true, fun _ => 0⟩ c.netqw.addr
      (connectionlessDatagram [0x6e, 0, 0, 0])) c = some c' ∧
    (∀ data ∈ handled c.netqw.trace, ¬IsConnectionless data) ∧ Untouched c.netqw c'.netqw := by
  have heq : ((Client.system fun _ => 0).runOk OffBand Client.handshake Client.fresh).map (fun c =>
      (c.netqw.state, c.netqw.huffcontext.isNone, c.netqw.currentOutgoingSequenceNumber,
        (Client.step (fun _ => 0) (.receive ⟨20000#64, true, fun _ => 0⟩ c.netqw.addr
          (connectionlessDatagram [0x6e, 0, 0, 0])) c).isSome))
        = some (.connected, true, 1#32, true) := by
    decide +kernel
  obtain ⟨c, hrun, hread⟩ := Option.map_eq_some_iff.mp heq
  simp only [Prod.mk.injEq, Option.isNone_iff_eq_none] at hread
  obtain ⟨hstate, hplain, hcurrent, hsome⟩ := hread
  obtain ⟨c', hstep⟩ := Option.isSome_iff_exists.mp hsome
  have hreaches : (Client.system fun _ => 0).Reaches OffBand c :=
    Transitions.Reaches.runOk (.init ⟨_, _, _, _, rfl⟩) hrun
  obtain ⟨hnumbers, huntouched⟩ := connectionless_untouched_iff fun _ => 0
  refine ⟨c, c', hrun, hstep, hnumbers c hreaches, ?_⟩
  have hnot : ¬PassesInBand (connectionlessDatagram [0x6e, 0, 0, 0]) c.netqw := by
    rintro ⟨-, -, hacknowledge⟩
    rw [hcurrent] at hacknowledge
    exact absurd hacknowledge (by decide)
  have hless : IsConnectionless (connectionlessDatagram [0x6e, 0, 0, 0]) := rfl
  exact (huntouched c hreaches.reachable hstate hplain _ _ c' hless hstep).1.mpr
    (.inl fun hboth => hnot hboth.1)

/-- With four zero bytes behind the -1 the datagram passes, and the next packet of the server is
    stale. -/
theorem connectionless_not_untouched_zeros : ∃ c c', (Client.system fun _ => 0).Reachable c ∧
    c.netqw.state = .connected ∧ c.netqw.huffcontext = none ∧
    IsConnectionless (connectionlessDatagram [0, 0, 0, 0]) ∧
    Client.step (fun _ => 0) (.receive ⟨20000#64, true, fun _ => 0⟩ c.netqw.addr
      (connectionlessDatagram [0, 0, 0, 0])) c = some c' ∧
    ¬Untouched c.netqw c'.netqw ∧
    c.netqw.accepts? ⟨30000#64, true, fun _ => 0⟩ c.netqw.addr (serverPacket 1 0)
      = some (serverPacket 1 0) ∧
    c'.netqw.accepts? ⟨30000#64, true, fun _ => 0⟩ c'.netqw.addr (serverPacket 1 0) = none := by
  have heq : ((Client.system fun _ => 0).run Client.handshake Client.fresh >>= fun c =>
      (Client.step (fun _ => 0) (.receive ⟨20000#64, true, fun _ => 0⟩ c.netqw.addr
        (connectionlessDatagram [0, 0, 0, 0])) c).map fun c' =>
          (c.netqw.accepts? ⟨30000#64, true, fun _ => 0⟩ c.netqw.addr (serverPacket 1 0),
            c.netqw.state, c.netqw.huffcontext.isNone, c.netqw.lastIncomingSequenceNumber,
            c'.netqw.huffcontext.isNone, c'.netqw.lastIncomingSequenceNumber))
        = some (some (serverPacket 1 0), .connected, true, 0#32, true, 0x7fffffff#32) := by
    decide +kernel
  obtain ⟨c, hrun, hnext⟩ := Option.bind_eq_some_iff.mp heq
  obtain ⟨c', hstep, hread⟩ := Option.map_eq_some_iff.mp hnext
  simp only [Prod.mk.injEq, Option.isNone_iff_eq_none] at hread
  obtain ⟨haccepts, hstate, hplain, hlast, hplain', hlast'⟩ := hread
  refine ⟨c, c', Transitions.Reachable.run (.init ⟨_, _, _, _, rfl⟩) hrun, hstate, hplain, rfl,
    hstep, fun huntouched => ?_, haccepts, accepts_of_last_max hlast' hplain'⟩
  have hsame := huntouched.last
  rw [hlast, hlast'] at hsame
  exact absurd hsame (by decide)

end QwNet
